import Scripting.Proofs.Alike.Evaluation
import Scripting.Proofs.Reading.Sources
import Scripting.Proofs.Running.Frame
import Scripting.Session

/-!
# The inputs of a session

A session first reads an input and then, if it has no faults, executes it.  Alike
sessions give the same reports (`Session.run_alike`).

The sessions that can arise are `Session.Reachable`; each of them is alike itself,
which says that the bodies of its functions stand in its arena.
-/

namespace Scripting

open Tree (Exchange)

namespace Session

/-- The report of an execution. -/
def reportOf (source : String) : EStateM.Result Interrupt Machine Unit → Report
  | .ok () _ => .done []
  | .error (.fault fault) _ => .done [fault.withSource source]
  | .error .exhausted _ => .exhausted

@[simp] theorem showOutline_machine (session : Session) (root : Tree.NodeId) :
    (session.showOutline root).machine = session.machine := by
  unfold showOutline notice
  split <;> rfl

theorem execute_report (session : Session) (root : Tree.NodeId) (source : String) :
    (session.execute root source).1 = reportOf source (Run.interpret root session.machine) := by
  unfold execute reportOf
  split <;> simp_all

theorem execute_machine (session : Session) (root : Tree.NodeId) (source : String) :
    (session.execute root source).2.machine =
      machineAfter (Run.interpret root session.machine) := by
  unfold execute machineAfter
  split <;> simp_all

/-- An input that is read with faults is not executed. -/
theorem run_of_faults
    (session : Session)
    {source : String}
    (faults : faultsOf source ≠ []) :
    (session.run source).1 = .done (faultsOf source) ∧
      (session.run source).2.machine = (session.machine.readSource source).2 := by
  have found := readSource_faults session.machine source
  have nonempty : (faultsOf source).isEmpty = false := by
    simpa using faults
  simp [run, found, nonempty]

/-- An input that is read without faults is executed. -/
theorem run_of_faultless
    (session : Session)
    {source : String}
    (faultless : faultsOf source = []) :
    let read := session.machine.readSource source
    (session.run source).1 = reportOf source (Run.interpret read.1.1 read.2) ∧
      (session.run source).2.machine = machineAfter (Run.interpret read.1.1 read.2) := by
  have found := readSource_faults session.machine source
  rw [faultless] at found
  simp [run, found, execute_report, execute_machine]

/-- However an input ends, the machine is a later one. -/
theorem later_run (session : Session) (source : String) :
    session.machine.Later (session.run source).2.machine := by
  have reading : session.machine.Later (session.machine.readSource source).2 :=
    Course.later.reading (Tree.le_readProgram _ _)
  by_cases faultless : faultsOf source = []
  · rw [(session.run_of_faultless faultless).2]
    exact Course.later.trans reading (later_interpret _ _)
  · rw [(session.run_of_faults faultless).2]
    exact reading

/-- Alike sessions give the same report of an input, and are alike afterwards. -/
theorem run_alike
    {left right : Session}
    (alike : left.machine.Alike .unchanged right.machine)
    (source : String) :
    (left.run source).1 = (right.run source).1 ∧
      (left.run source).2.machine.Alike .unchanged (right.run source).2.machine := by
  have reading := agrees_readSource source left.machine right.machine alike
    (Tree.Arenas.le_refl _)
  unfold Run.readSource at reading
  cases reading with
  | ok machines after values =>
      obtain ⟨-, roots⟩ := values
      by_cases faultless : faultsOf source = []
      · obtain ⟨leftReport, leftMachine⟩ := left.run_of_faultless faultless
        obtain ⟨rightReport, rightMachine⟩ := right.run_of_faultless faultless
        rw [leftReport, leftMachine, rightReport, rightMachine]
        have ends : EndAlike .unchanged _ _
            (Run.interpret (left.machine.readSource source).1.1 (left.machine.readSource source).2)
            (Run.interpret (right.machine.readSource source).1.1
              (right.machine.readSource source).2) :=
          agrees_interpret (roots ((readSource_faults _ source).trans faultless)) _ _ machines
            (Tree.Arenas.le_refl _)
        generalize Run.interpret (left.machine.readSource source).1.1 _ = first at ends ⊢
        generalize Run.interpret (right.machine.readSource source).1.1 _ = second at ends ⊢
        cases ends with
        | ok later _ _ => exact ⟨rfl, later⟩
        | fault later _ faults =>
            rw [faults.eq]
            exact ⟨rfl, later⟩
        | exhausted later _ => exact ⟨rfl, later⟩
      · obtain ⟨leftReport, leftMachine⟩ := left.run_of_faults faultless
        obtain ⟨rightReport, rightMachine⟩ := right.run_of_faults faultless
        rw [leftReport, leftMachine, rightReport, rightMachine]
        exact ⟨rfl, machines⟩

/-! ## The sessions that can arise -/

/-- A session that can arise. -/
inductive Reachable : Session → Prop
  | new (settings : Settings) (host : Host) : Reachable (ofSettings settings host)
  | run {session : Session} (source : String) :
      Reachable session → Reachable (session.run source).2
  | runStartup {session : Session} : Reachable session → Reachable session.runStartup.2
  | resetError {session : Session} : Reachable session → Reachable session.resetError
  | notice {session : Session} (line : String) :
      Reachable session → Reachable (session.notice line)
  | print {session : Session} (line : String) : Reachable session → Reachable (session.print line)

/-- A machine whose functions are all built in is alike itself. -/
theorem alike_of_builtins
    {machine : Machine}
    (builtins : ∀ callable ∈ machine.store.callables, ∃ given, callable = .builtin given) :
    machine.Alike .unchanged machine where
  rest := rfl
  count := rfl
  callables id := by
    cases found : machine.store.callable? id with
    | none => exact .none
    | some callable =>
        obtain ⟨given, rfl⟩ := builtins callable (Array.mem_of_getElem? found)
        exact .some (.builtin given)
  fresh _ _ _ := rfl

theorem builtins_foldl
    (builtins : List Builtin)
    {machine : Machine}
    (before : ∀ callable ∈ machine.store.callables, ∃ given, callable = .builtin given) :
    ∀ callable ∈ (builtins.foldl Machine.addBuiltin machine).store.callables,
      ∃ given, callable = .builtin given := by
  induction builtins generalizing machine with
  | nil => exact before
  | cons builtin rest inductionHypothesis =>
      apply inductionHypothesis
      intro callable member
      have pushed : callable ∈ machine.store.callables.push (.builtin builtin) := member
      rcases Array.mem_push.mp pushed with old | rfl
      · exact before callable old
      · exact ⟨builtin, rfl⟩

/-- Changing settings and surroundings keeps a machine alike itself. -/
theorem Reachable.alike
    {session : Session}
    (reachable : session.Reachable) :
    session.machine.Alike .unchanged session.machine := by
  induction reachable with
  | new settings host =>
      exact alike_of_builtins (builtins_foldl _ (by simp [Machine.bare, Store.fresh]))
  | run source _ inductionHypothesis => exact (run_alike inductionHypothesis source).2
  | @runStartup session _ inductionHypothesis =>
      unfold Session.runStartup
      cases session.settings.startup with
      | none => exact inductionHypothesis
      | some path =>
          have asked := inductionHypothesis.keeping
            { session.machine with host := session.machine.host.wishing (.path path) } rfl rfl
          dsimp only
          cases session.machine.host.files.read path with
          | ok source => exact (run_alike asked source).2
          | error problem => exact asked
  | resetError _ inductionHypothesis => exact inductionHypothesis
  | notice line _ inductionHypothesis => exact inductionHypothesis
  | @print session line _ inductionHypothesis =>
      exact inductionHypothesis.keeping
        { session.machine with host := session.machine.host.append (line ++ "\n") } rfl rfl

end Session
end Scripting
