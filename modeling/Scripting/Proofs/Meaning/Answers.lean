import Scripting.Proofs.Meaning.Represents

/-!
# Built-in functions on machines

A built-in function that answers on its own gives the answer that its meaning says
(`gives_answer?`).  The one that runs programs finds and reads the program that is
`located`, and the one that calls functions calls what is `applied?`.
-/

namespace Scripting
namespace Meaning

variable {context : Context} {state later : State} {machine : Machine}

/-! ## Files -/

theorem gives_seekFiles (represents : Represents context state machine) (path : String) :
    Gives context (Builtin.seekFiles path) machine (.ok state.host.files)
      (state.wishing (.path path)) := by
  refine ⟨_, ?_, represents.asking (·.wishing (.path path)), Tree.Arena.le_refl _⟩
  unfold Builtin.seekFiles
  rw [represents.host]
  rfl

theorem gives_readText (represents : Represents context state machine) (path : String) :
    Gives context (Builtin.readText path) machine (.ok (readText state path).1)
      (readText state path).2 := by
  apply (gives_seekFiles represents path).bind
  intro between sought _
  unfold readText
  cases state.host.files.read path <;> exact .pure sought _

theorem gives_firstFile? (represents : Represents context state machine) (paths : List String) :
    Gives context (Builtin.firstFile? paths) machine (.ok (firstFile? state paths).1)
      (firstFile? state paths).2 := by
  induction paths generalizing state machine with
  | nil => exact .pure represents _
  | cons path others inductionHypothesis =>
      apply (gives_seekFiles represents path).bind
      intro between sought _
      unfold firstFile?
      split
      · exact .pure sought _
      · exact inductionHypothesis sought

/-- Finds and reads a program. -/
def locate (path : Value) : Run (Except String (String × String)) := do
  match Builtin.pathOf path with
  | .error reason => return .error reason
  | .ok path =>
      match ← Builtin.programPath? path with
      | none => return .error ("cannot find '" ++ path ++ "'")
      | some found => return (← Builtin.readText found).map fun source => (found, source)

/-- What is done with a program that was found. -/
def runLocated (steps : Steps) : Except String (String × String) → Run Builtin.Answer
  | .error reason => return .error reason
  | .ok (found, source) => do
      let faults ← Run.sourceWith steps source
      return if faults.isEmpty then .ok .null else faulty found faults

/-- A program is first found and read. -/
theorem runFile_eq (steps : Steps) (path : Value) :
    Builtin.runFile steps path = locate path >>= runLocated steps := by
  unfold Builtin.runFile locate
  cases Builtin.pathOf path with
  | error reason => rfl
  | ok path =>
      simp only [bind_assoc]
      congr 1
      funext found
      cases found with
      | none => rfl
      | some found =>
          simp only [bind_assoc]
          congr 1
          funext text
          cases text with
          | error reason => rfl
          | ok source =>
              refine Eq.trans ?_ (pure_bind _ _).symm
              refine congrArg (Run.sourceWith steps source >>= ·) ?_
              funext faults
              cases faults <;> rfl

theorem gives_locate (represents : Represents context state machine) (path : Value) :
    Gives context (locate path) machine (.ok (located state context.libraries path).1)
      (located state context.libraries path).2 := by
  unfold locate located
  cases Builtin.pathOf path with
  | error reason => exact .pure represents _
  | ok path =>
      let paths :=
        if Path.isAbsolute path then [path] else path :: context.libraries.map (Path.join · path)
      have sought : Gives context (Builtin.programPath? path) machine
          (.ok (firstFile? state paths).1) (firstFile? state paths).2 := by
        have same : Builtin.programPath? path machine = Builtin.firstFile? paths machine := by
          change (if Path.isAbsolute path then _ else _ : Run (Option String)) machine = _
          rw [represents.libraries_eq]
          simp only [paths]
          split <;> rfl
        unfold Gives
        rw [same]
        exact gives_firstFile? represents paths
      apply sought.bind
      intro between found _
      change Represents context (firstFile? state paths).2 between at found
      simp only [paths] at found ⊢
      generalize firstFile? state _ = answer at found ⊢
      obtain ⟨file, after⟩ := answer
      cases file with
      | none => exact .pure found _
      | some file => exact (gives_readText found file).bind fun last read _ => .pure read _

/-! ## Answers -/

theorem gives_readFile (represents : Represents context state machine) (path : Value) :
    Gives context (Builtin.readFile path) machine (.ok (readFile state path).1)
      (readFile state path).2 := by
  unfold Builtin.readFile readFile
  cases Builtin.pathOf path with
  | error reason => exact .pure represents _
  | ok path => exact (gives_readText represents path).bind fun between read _ => .pure read _

theorem gives_writeFile (represents : Represents context state machine) (path value : Value) :
    Gives context (Builtin.writeFile path value) machine (.ok (writeFile state path value).1)
      (writeFile state path value).2 := by
  unfold Builtin.writeFile writeFile
  cases Builtin.pathOf path with
  | error reason => exact .pure represents _
  | ok path =>
      dsimp only
      refine (represents.textOf value).bind fun between same _ =>
        (gives_seekFiles same path).bind fun last sought _ => ?_
      cases state.host.files.write path (state.text value) with
      | error problem => exact .pure sought _
      | ok files =>
          dsimp only
          have changed : Gives context (modify fun machine =>
                { machine with host := { machine.host with files := files } } : Run PUnit) last
              (.ok ⟨⟩)
              ((state.wishing (.path path)).asking fun host => { host with files := files }) :=
            ⟨_, rfl, sought.asking fun host => { host with files := files }, Tree.Arena.le_refl _⟩
          exact changed.bind fun latest written _ => .pure written _

theorem gives_split (represents : Represents context state machine) (text separator : Value) :
    Gives context (Builtin.split text separator) machine (.ok (split state text separator).1)
      (split state text separator).2 := by
  unfold Builtin.split split
  cases text with
  | text text =>
      cases separator with
      | text separator =>
          exact (represents.newArray _).bind fun between added _ => .pure added _
      | _ => exact (represents.newArray _).bind fun between added _ => .pure added _
  | _ => exact (represents.newArray _).bind fun between added _ => .pure added _

/-- What a built-in function answers on its own. -/
theorem gives_answer?
    (represents : Represents context state machine)
    (steps : Steps)
    {action : Action}
    {arguments : List Value}
    {answer : Builtin.Answer}
    (found : answer? state action (arguments.headD .null) (arguments.tail.headD .null) =
      some (answer, later)) :
    Gives context (Builtin.answer steps action arguments) machine (.ok answer) later := by
  unfold answer? at found
  unfold Builtin.answer
  generalize arguments.headD .null = first at found ⊢
  generalize arguments.tail.headD .null = second at found ⊢
  cases action with
  | runFile => cases found
  | apply => cases found
  | clock =>
      obtain ⟨rfl, rfl⟩ := Prod.mk.inj (Option.some.inj found)
      refine ⟨_, ?_, represents.asking fun host => host.readClock.2, Tree.Arena.le_refl _⟩
      rw [← represents.host]
      rfl
  | «variable» =>
      cases first with
      | text name =>
          obtain ⟨rfl, rfl⟩ := Prod.mk.inj (Option.some.inj found)
          refine ⟨_, ?_, represents.asking (·.wishing (.variable name)), Tree.Arena.le_refl _⟩
          rw [← represents.host]
          rfl
      | _ =>
          obtain ⟨rfl, rfl⟩ := Prod.mk.inj (Option.some.inj found)
          exact .still represents rfl
  | size =>
      obtain ⟨rfl, rfl⟩ := Prod.mk.inj (Option.some.inj found)
      cases first with
      | array id => exact (represents.elementsOf id).bind fun between same _ => .pure same _
      | _ => exact .pure represents _
  | trim =>
      obtain ⟨rfl, rfl⟩ := Prod.mk.inj (Option.some.inj found)
      exact .pure represents _
  | split =>
      have same := Option.some.inj found
      have given := gives_split represents first second
      rw [same] at given
      exact given
  | push =>
      cases first with
      | array id =>
          obtain ⟨rfl, rfl⟩ := Prod.mk.inj (Option.some.inj found)
          exact (represents.pushElement id second).bind fun between pushed _ => .pure pushed _
      | _ =>
          obtain ⟨rfl, rfl⟩ := Prod.mk.inj (Option.some.inj found)
          exact .pure represents _
  | text =>
      obtain ⟨rfl, rfl⟩ := Prod.mk.inj (Option.some.inj found)
      exact (represents.textOf first).bind fun between same _ => .pure same _
  | typeName =>
      obtain ⟨rfl, rfl⟩ := Prod.mk.inj (Option.some.inj found)
      exact .pure represents _
  | readFile =>
      have same := Option.some.inj found
      have given := gives_readFile represents first
      rw [same] at given
      exact given
  | writeFile =>
      have same := Option.some.inj found
      have given := gives_writeFile represents first second
      rw [same] at given
      exact given
  | refuse =>
      obtain ⟨rfl, rfl⟩ := Prod.mk.inj (Option.some.inj found)
      exact (represents.textOf first).bind fun between same _ => .pure same _

/-! ## Functions that are applied -/

theorem gives_unapplied
    (represents : Represents context state machine)
    (steps : Steps)
    {target items : Value}
    (unapplied : applied? state target items = none) :
    Gives context (Builtin.apply steps target items) machine
      (.ok (.error "expected a function and an array")) state := by
  unfold applied? at unapplied
  unfold Builtin.apply
  cases target with
  | callable id =>
      cases items with
      | array items =>
          simp only [Option.map_eq_none_iff] at unapplied
          have absent := represents.callable?_of_none unapplied
          have looked : Gives context (Run.callableAt? id) machine (.ok none) state :=
            .still represents (congrArg (EStateM.Result.ok · machine) absent)
          exact looked.bind fun between same _ => .pure same _
      | _ => exact .pure represents _
  | _ => exact .pure represents _

/-- A function that is applied is called with the elements of the array. -/
theorem apply_of_applied
    (represents : Represents context state machine)
    (steps : Steps)
    {target items : Value}
    {definition : Definition}
    {values : List Value}
    (applied : applied? state target items = some (definition, values)) :
    ∃ callable, Denotes machine.arena callable definition ∧
      Builtin.apply steps target items machine =
        (Run.attempt (steps.call callable values) >>= fun outcome =>
          pure (outcome.mapError Fault.text)) machine := by
  unfold applied? at applied
  split at applied
  next id items =>
      obtain ⟨found, sameFound, same⟩ := Option.map_eq_some_iff.mp applied
      obtain ⟨rfl, rfl⟩ := Prod.mk.inj same
      obtain ⟨callable, stored, denotes⟩ := represents.callable?_of_some sameFound
      refine ⟨callable, denotes, ?_⟩
      unfold Builtin.apply
      simp only [Bind.bind, EStateM.bind, Run.callableAt?, Run.elementsOf, stored,
        represents.elements_eq]
      cases Run.attempt (steps.call callable (state.elements items).toList) machine with
      | ok outcome after => cases outcome <;> rfl
      | error interrupt after => rfl
  next => cases applied

end Meaning
end Scripting
