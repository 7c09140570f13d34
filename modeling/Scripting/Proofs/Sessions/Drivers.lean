import Scripting.Proofs.Running.Obedience
import Scripting.Proofs.Sessions.Runs

/-!
# What comes of a source

A source is run in two places: by a session, and by a program that includes it.  Both
answer in the same way (`Run.Answered`): with the faults found while the source is read, or
else with what is left of its program, which is nothing, or the fault in which it ended.

Main statements: `Run.answered_source`, `Session.answered_run`.
-/

namespace Scripting

/-- A source that is run on the machine is answered with these faults, and leaves the later
machine. -/
inductive Run.Answered (source : String) (machine : Machine) : List Fault → Machine → Prop
  /-- The source has faults, and is only read. -/
  | rejected :
      faultsOf source ≠ [] →
        Answered source machine (faultsOf source) (machine.readSource source).2
  | completed {later : Machine} :
      faultsOf source = [] → programWith (within ample) source machine = .ok () later →
        Answered source machine [] later
  | failed {fault : Fault} {later : Machine} :
      faultsOf source = [] →
      programWith (within ample) source machine = .error (.fault fault) later →
        Answered source machine [fault.withSource source] later

/-- A source that is run as a program is that is included is only read, if it has faults, and
otherwise it ends well or is answered with the fault in which it ends. -/
theorem Run.sourceWith_cases
    {steps : Steps}
    {source : String}
    {machine later : Machine}
    {faults : List Fault}
    (ended : sourceWith steps source machine = .ok faults later) :
    (faultsOf source ≠ [] ∧ faults = faultsOf source ∧ later = (machine.readSource source).2) ∨
      faultsOf source = [] ∧
        ((faults = [] ∧ programWith steps source machine = .ok () later) ∨
          ∃ fault, faults = [fault.withSource source] ∧
            programWith steps source machine = .error (.fault fault) later) := by
  rw [sourceWith_eq, readSource_faults] at ended
  by_cases faultless : faultsOf source = []
  · refine .inr ⟨faultless, ?_⟩
    rw [faultless] at ended
    simp only [List.isEmpty_nil, if_true] at ended
    cases ran : programWith steps source machine with
    | ok value between =>
        simp only [Bind.bind, EStateM.bind, attempt, ran] at ended
        cases ended
        exact .inl ⟨rfl, rfl⟩
    | error interrupt between =>
        cases interrupt with
        | fault fault =>
            simp only [Bind.bind, EStateM.bind, attempt, ran] at ended
            cases ended
            exact .inr ⟨fault, rfl, rfl⟩
        | exhausted =>
            simp only [Bind.bind, EStateM.bind, attempt, ran] at ended
            cases ended
  · rw [if_neg (by simpa using faultless)] at ended
    cases ended
    exact .inl ⟨faultless, rfl, rfl⟩

/-- A source is run as a program is that is included. -/
theorem Run.answered_source
    {source : String}
    {machine later : Machine}
    {faults : List Fault}
    (ended : Run.source source machine = .ok faults later) :
    Answered source machine faults later := by
  obtain ⟨faulty, rfl, rfl⟩ | ⟨faultless, ⟨rfl, ran⟩ | ⟨fault, rfl, failed⟩⟩ :=
    sourceWith_cases ended
  · exact .rejected faulty
  · exact .completed faultless ran
  · exact .failed faultless failed

/-- A session answers a source in the same way. -/
theorem Session.answered_run
    {session : Session}
    {source : String}
    {faults : List Fault}
    (ended : (session.run source).1 = .done faults) :
    Run.Answered source session.machine faults (session.run source).2.machine := by
  by_cases faultless : faultsOf source = []
  · obtain ⟨report, machine⟩ := session.run_of_faultless faultless
    -- To execute what has been read is to run the program.
    change _ = reportOf source (Run.programWith (Run.within Run.ample) source session.machine)
      at report
    change _ = machineAfter (Run.programWith (Run.within Run.ample) source session.machine)
      at machine
    rw [machine]
    rw [report] at ended
    cases ran : Run.programWith (Run.within Run.ample) source session.machine with
    | ok value later =>
        rw [ran] at ended
        cases ended
        exact .completed faultless ran
    | error interrupt later =>
        rw [ran] at ended
        cases interrupt with
        | fault fault =>
            cases ended
            exact .failed faultless ran
        | exhausted => cases ended
  · obtain ⟨report, machine⟩ := session.run_of_faults faultless
    rw [machine]
    rw [report] at ended
    cases ended
    exact .rejected faultless

end Scripting
