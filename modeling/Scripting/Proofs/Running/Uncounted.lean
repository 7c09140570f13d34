import Scripting.Proofs.Meaning.Answers

/-!
# Work that counts nothing

Only calls and programs look at the number of calls, and only the steps and loops use up the
bound.  Operators, names, arrays and output do neither (`Uncounted`), and the built-in
functions that go on with no steps always come to an answer (`Answers`).

Main statements: `Uncounted.binaryValue`, `Answers.answer`.
-/

namespace Scripting

variable {α β : Type}

/-- The machine with other counts of calls. -/
def Machine.counting (machine : Machine) (depth base limit : Nat) : Machine :=
  { machine with depth := depth, base := base, limit := limit }

/-- The same end, with a change to the machine that is left. -/
def leftAs (change : Machine → Machine) :
    EStateM.Result Interrupt Machine α → EStateM.Result Interrupt Machine α
  | .ok value machine => .ok value (change machine)
  | .error interrupt machine => .error interrupt (change machine)

/-- The work does not use up the bound, and it neither looks at the counts of calls nor
changes them. -/
structure Uncounted (work : Run α) : Prop where
  tireless (machine later : Machine) : work machine ≠ .error .exhausted later
  counting (machine : Machine) (depth base limit : Nat) :
    work (machine.counting depth base limit) = leftAs (·.counting depth base limit) (work machine)

namespace Uncounted

variable {work : Run α}

theorem pure (value : α) : Uncounted (Pure.pure value) :=
  ⟨nofun, fun _ _ _ _ => rfl⟩

theorem fail (cause : Cause) (token : Token) : Uncounted (Run.fail cause token : Run α) :=
  ⟨nofun, fun _ _ _ _ => rfl⟩

theorem bind
    {next : α → Run β}
    (first : Uncounted work)
    (second : ∀ value, Uncounted (next value)) :
    Uncounted (work >>= next) where
  tireless machine later ended := by
    cases ends : work machine with
    | ok value between =>
        rw [Run.bind_of_ok ends] at ended
        exact (second value).tireless between later ended
    | error interrupt between =>
        rw [Run.bind_of_error ends] at ended
        cases ended
        exact first.tireless machine later ends
  counting machine depth base limit := by
    have same := first.counting machine depth base limit
    cases ends : work machine with
    | ok value between =>
        rw [ends] at same
        rw [Run.bind_of_ok same, Run.bind_of_ok ends]
        exact (second value).counting between depth base limit
    | error interrupt between =>
        rw [ends] at same
        rw [Run.bind_of_error same, Run.bind_of_error ends]
        rfl

theorem textOf (value : Value) : Uncounted (Run.textOf value) :=
  ⟨nofun, fun _ _ _ _ => rfl⟩

theorem elementsOf (id : ArrayId) : Uncounted (Run.elementsOf id) :=
  ⟨nofun, fun _ _ _ _ => rfl⟩

theorem newArray (items : Array Value) : Uncounted (Run.newArray items) :=
  ⟨nofun, fun _ _ _ _ => rfl⟩

theorem define (name : String) (value : Value) : Uncounted (Run.define name value) :=
  ⟨nofun, fun _ _ _ _ => rfl⟩

theorem declareFunction (node : Tree.Node) : Uncounted (Steps.declareFunction node) :=
  ⟨nofun, fun _ _ _ _ => rfl⟩

theorem valueOf (name : Token) : Uncounted (Run.valueOf name) where
  tireless machine later ended := by
    unfold Run.valueOf at ended
    split at ended <;> cases ended
  counting machine depth base limit := by
    unfold Run.valueOf Machine.counting
    dsimp only
    split <;> rfl

theorem assign (name : Token) (value : Value) : Uncounted (Run.assign name value) where
  tireless machine later ended := by
    unfold Run.assign at ended
    split at ended <;> cases ended
  counting machine depth base limit := by
    unfold Run.assign Machine.counting
    dsimp only
    split <;> rfl

theorem write (text : String) (token : Token) : Uncounted (Run.write text token) where
  tireless machine later ended := by
    unfold Run.write at ended
    split at ended <;> cases ended
  counting machine depth base limit := by
    unfold Run.write Machine.counting
    dsimp only
    split <;> rfl

theorem flush : Uncounted Run.flush where
  tireless machine later ended := by
    unfold Run.flush at ended
    split at ended <;> cases ended
  counting machine depth base limit := by
    unfold Run.flush Machine.counting
    dsimp only
    split <;> rfl

/-! ## Operators -/

theorem unaryValue (operator : Token) (operand : Value) :
    Uncounted (Steps.unaryValue operator operand) := by
  unfold Steps.unaryValue
  split
  · cases operand <;> first | exact pure _ | exact fail _ _
  · exact pure _
  · exact pure _

theorem numbers (operator : Token) (left right : Value) :
    Uncounted (Steps.numbers operator left right) := by
  unfold Steps.numbers
  split
  · exact pure _
  · exact fail _ _

theorem sum (operator : Token) (left right : Value) :
    Uncounted (Steps.sum operator left right) := by
  unfold Steps.sum
  split
  · exact pure _
  · exact (textOf _).bind fun _ => (textOf _).bind fun _ => pure _
  · exact (textOf _).bind fun _ => (textOf _).bind fun _ => pure _
  · exact fail _ _

theorem quotient (operator : Token) (left right : Value) :
    Uncounted (Steps.quotient operator left right) := by
  refine (numbers operator left right).bind fun pair => ?_
  dsimp only
  split
  · exact fail _ _
  · exact pure _

theorem binaryValue (operator : Token) (left right : Value) :
    Uncounted (Steps.binaryValue operator left right) := by
  have ofNumbers : ∀ value : Float × Float → Value,
      Uncounted (Steps.numbers operator left right >>= fun pair =>
        (Pure.pure (value pair) : Run Value)) :=
    fun _ => (numbers operator left right).bind fun _ => pure _
  unfold Steps.binaryValue
  split
  case h_3 => exact sum operator left right
  case h_6 => exact quotient operator left right
  all_goals first | exact pure _ | exact ofNumbers _

theorem elementAt (bracket : Token) (target position : Value) :
    Uncounted (Steps.elementAt bracket target position) := by
  unfold Steps.elementAt
  cases target with
  | array id =>
      cases position with
      | number number =>
          refine (elementsOf id).bind fun items => ?_
          dsimp only
          split
          · exact pure _
          · exact fail _ _
      | _ => exact fail _ _
  | _ => exact fail _ _

end Uncounted

/-! ## Built-in functions -/

/-- The work always comes to an end with a result. -/
def Answers (work : Run α) : Prop :=
  ∀ machine, ∃ result later, work machine = .ok result later

/-- The work asks for some files, and comes to a result without doing anything else. -/
def AsksForFiles (work : Run α) : Prop :=
  ∀ machine : Machine, ∃ result wishes,
    work machine = .ok result { machine with host := { machine.host with wishes := wishes } }

namespace AsksForFiles

variable {work : Run α}

theorem answers (asks : AsksForFiles work) : Answers work :=
  fun machine => let ⟨result, _, ends⟩ := asks machine; ⟨result, _, ends⟩

theorem pure (value : α) : AsksForFiles (Pure.pure value) :=
  fun machine => ⟨value, machine.host.wishes, rfl⟩

theorem bind
    {next : α → Run β}
    (first : AsksForFiles work)
    (second : ∀ value, AsksForFiles (next value)) :
    AsksForFiles (work >>= next) := by
  intro machine
  obtain ⟨value, wishes, ends⟩ := first machine
  rw [Run.bind_of_ok ends]
  exact second value _

theorem seekFiles (path : String) : AsksForFiles (Builtin.seekFiles path) :=
  fun _ => ⟨_, _, rfl⟩

theorem readText (path : String) : AsksForFiles (Builtin.readText path) := by
  refine (seekFiles path).bind fun files => ?_
  cases files.read path <;> exact pure _

theorem firstFile? (paths : List String) : AsksForFiles (Builtin.firstFile? paths) := by
  induction paths with
  | nil => exact pure _
  | cons path others inductionHypothesis =>
      refine (seekFiles path).bind fun files => ?_
      split
      · exact pure _
      · exact inductionHypothesis

theorem programPath? (path : String) : AsksForFiles (Builtin.programPath? path) := by
  intro machine
  change ∃ result wishes, (if Path.isAbsolute path then _ else _ : Run (Option String)) machine = _
  split <;> exact firstFile? _ machine

theorem locate (path : Value) : AsksForFiles (Meaning.locate path) := by
  unfold Meaning.locate
  cases Builtin.pathOf path with
  | error reason => exact pure _
  | ok path =>
      refine (programPath? path).bind fun found => ?_
      cases found with
      | none => exact pure _
      | some found => exact (readText found).bind fun text => pure _

end AsksForFiles

namespace Answers

variable {work : Run α}

theorem pure (value : α) : Answers (Pure.pure value) :=
  fun machine => ⟨value, machine, rfl⟩

theorem bind
    {next : α → Run β}
    (first : Answers work)
    (second : ∀ value, Answers (next value)) :
    Answers (work >>= next) := by
  intro machine
  obtain ⟨value, between, ends⟩ := first machine
  rw [Run.bind_of_ok ends]
  exact second value between

theorem textOf (value : Value) : Answers (Run.textOf value) :=
  fun _ => ⟨_, _, rfl⟩

theorem newArray (items : Array Value) : Answers (Run.newArray items) :=
  fun _ => ⟨_, _, rfl⟩

theorem writeFile (path value : Value) : Answers (Builtin.writeFile path value) := by
  unfold Builtin.writeFile
  cases Builtin.pathOf path with
  | error reason => exact pure _
  | ok path =>
      refine (textOf value).bind fun text =>
        (AsksForFiles.seekFiles path).answers.bind fun files => ?_
      cases files.write path text with
      | error problem => exact pure _
      | ok changed => exact fun machine => ⟨_, _, rfl⟩

theorem readFile (path : Value) : Answers (Builtin.readFile path) := by
  unfold Builtin.readFile
  cases Builtin.pathOf path with
  | error reason => exact pure _
  | ok path => exact (AsksForFiles.readText path).answers.bind fun text => pure _

theorem systemVariable (name : Value) : Answers (Builtin.systemVariable name) := by
  cases name <;> exact fun machine => ⟨_, _, rfl⟩

theorem size (value : Value) : Answers (Builtin.size value) := by
  cases value <;> exact fun machine => ⟨_, _, rfl⟩

theorem split (text separator : Value) : Answers (Builtin.split text separator) := by
  unfold Builtin.split
  split <;> exact (newArray _).bind fun array => pure _

theorem push (target value : Value) : Answers (Builtin.push target value) := by
  cases target <;> exact fun machine => ⟨_, _, rfl⟩

/-- A built-in function that neither runs a program nor calls a function comes to an
answer, which does not depend on the steps. -/
theorem answer
    {action : Action}
    (runsNothing : action ≠ .runFile)
    (callsNothing : action ≠ .apply)
    (steps other : Steps)
    (arguments : List Value) :
    Builtin.answer steps action arguments = Builtin.answer other action arguments ∧
      Answers (Builtin.answer steps action arguments) := by
  cases action with
  | runFile => exact absurd rfl runsNothing
  | apply => exact absurd rfl callsNothing
  | clock => exact ⟨rfl, fun machine => ⟨_, _, rfl⟩⟩
  | «variable» => exact ⟨rfl, systemVariable _⟩
  | size => exact ⟨rfl, size _⟩
  | trim => exact ⟨rfl, pure _⟩
  | split => exact ⟨rfl, split _ _⟩
  | push => exact ⟨rfl, push _ _⟩
  | text => exact ⟨rfl, (textOf _).bind fun text => pure _⟩
  | typeName => exact ⟨rfl, pure _⟩
  | readFile => exact ⟨rfl, readFile _⟩
  | writeFile => exact ⟨rfl, writeFile _ _⟩
  | refuse => exact ⟨rfl, (textOf _).bind fun text => pure _⟩

/-- A built-in function that comes to an answer does not use up the bound. -/
theorem perform_ne_exhausted
    {steps : Steps}
    {builtin : Builtin}
    {arguments : List Value}
    (answers : Answers (Builtin.answer steps builtin.action arguments))
    (machine later : Machine) :
    Builtin.perform steps builtin arguments machine ≠ .error .exhausted later := by
  intro ended
  obtain ⟨result, between, ends⟩ := answers machine
  unfold Builtin.perform at ended
  rw [Run.bind_of_ok ends] at ended
  cases result <;> cases ended

end Answers
end Scripting
