import Scripting.Proofs.Meaning.Complete
import Scripting.Proofs.Meaning.Sound
import Scripting.Proofs.Sessions.Runs

/-!
# Programs do what they mean

Every session that can arise stands for a state, and executing an input that was read
without faults agrees with the meaning of its declarations in that state: one comes to
an end if and only if the other does, and then in the same way and in the same state.

Main statement: `Session.interpretWith_iff_runs`.
-/

namespace Scripting

open Meaning
open Tree (Statement)

/-! ## Sessions and states -/

namespace Meaning

/-- A machine that stands for some state, in the context in which it works. -/
def Meaningful (machine : Machine) : Prop :=
  ∃ state, Represents (contextOf machine) state machine

namespace Meaningful

variable {machine : Machine}

theorem of_represents
    {context : Context}
    {state : State}
    (represents : Represents context state machine) :
    Meaningful machine :=
  ⟨state, represents.context.symm ▸ represents⟩

/-- A machine stands for a state when all its functions are built in. -/
theorem of_builtins
    (builtins : ∀ callable ∈ machine.store.callables, ∃ given, callable = .builtin given) :
    Meaningful machine := by
  let define : Callable → Definition
    | .builtin given => .builtin given
    | .function declared =>
        .function declared.name declared.parameters [] declared.closure
  refine ⟨⟨machine.store.frames, machine.store.arrays, machine.store.callables.map define,
    machine.host⟩, rfl, rfl, rfl, (Array.size_map ..).symm, fun id => ?_, rfl⟩
  rw [Array.getElem?_map]
  cases found : machine.store.callable? id with
  | none =>
      have absent : machine.store.callables[id]? = none := found
      rw [absent]
      exact .none
  | some callable =>
      have present : machine.store.callables[id]? = some callable := found
      obtain ⟨given, rfl⟩ := builtins callable (Array.mem_of_getElem? found)
      rw [present]
      exact .some (.builtin given)

theorem asking (meaningful : Meaningful machine) (change : Host → Host) :
    Meaningful { machine with host := change machine.host } := by
  obtain ⟨state, represents⟩ := meaningful
  exact of_represents (represents.asking change)

/-- A source that is read leaves nodes. -/
theorem readSource (meaningful : Meaningful machine) (source : String) :
    Meaningful (machine.readSource source).2 := by
  obtain ⟨state, represents⟩ := meaningful
  exact of_represents (represents.reading (Tree.le_readProgram _ machine.arena))

end Meaningful

end Meaning

namespace Session

/-- The tree of a source that is accepted stands where the source was read. -/
theorem stands_of_accepts
    (machine : Machine)
    {source : String}
    {statements : List Statement}
    (derivation : Statement.Derives .declarations (tokensOf source).body [] statements)
    (nearest : Statement.AllElseNearest statements) :
    (Tree.programRose (tokensOf source).ending statements).StandsAt
      (machine.readSource source).2.arena (some (machine.readSource source).1.1) :=
  (Tree.readProgram_of_derives (tokensOf source) derivation nearest machine.arena).2.2

theorem meaningful_run
    {session : Session}
    (meaningful : Meaningful session.machine)
    (source : String) :
    Meaningful (session.run source).2.machine := by
  have read := meaningful.readSource source
  by_cases faultless : faultsOf source = []
  · rw [(session.run_of_faultless faultless).2]
    obtain ⟨-, statements, derivation, nearest⟩ :=
      derives_of_accepts (List.isEmpty_iff.mpr faultless)
    obtain ⟨state, represents⟩ := read
    -- Also where the bound is used up, the machine that is left stands for a state.
    obtain ⟨later, after⟩ := ((sound_within Run.ample).interpretWith represents
      (stands_of_accepts session.machine derivation nearest)).represents
    exact .of_represents after
  · rw [(session.run_of_faults faultless).2]
    exact read

/-- Every session that can arise stands for some state. -/
theorem Reachable.meaningful
    {session : Session}
    (reachable : session.Reachable) :
    Meaningful session.machine := by
  induction reachable with
  | new settings host =>
      exact .of_builtins (builtins_foldl _ (by simp [Machine.bare, Store.fresh]))
  | run source _ inductionHypothesis => exact meaningful_run inductionHypothesis source
  | @runStartup session _ inductionHypothesis =>
      unfold Session.runStartup
      cases session.settings.startup with
      | none => exact inductionHypothesis
      | some path =>
          have asked := inductionHypothesis.asking (·.wishing (.path path))
          dsimp only
          cases session.machine.host.files.read path with
          | ok source => exact meaningful_run asked source
          | error problem => exact asked
  | resetError _ inductionHypothesis => exact inductionHypothesis
  | notice line _ inductionHypothesis => exact inductionHypothesis
  | print line _ inductionHypothesis => exact inductionHypothesis.asking (·.append (line ++ "\n"))

/-! ## Inputs and their meaning -/

/-- An input that is read without faults is executed as its declarations mean. Whatever
the execution comes to within any bound follows from the rules, whatever follows from the
rules is what the execution comes to within all bounds that are large enough, and the
rules say no two things. -/
theorem interpretWith_iff_runs
    {session : Session}
    (reachable : session.Reachable)
    {source : String}
    (accepted : accepts source = true) :
    let read := session.machine.readSource source
    let root := read.1.1
    let machine := read.2
    let context := contextOf machine
    ∃ statements,
      Statement.Derives .declarations (tokensOf source).body [] statements ∧
      Statement.AllElseNearest statements ∧
      (∃ state, Represents context state machine) ∧
      ∀ state, Represents context state machine →
        (∀ bound outcome after,
          Run.interpretWith (Run.within bound) root machine = ended outcome after →
          ∃ later, Runs (.program statements) context state outcome later ∧
            Represents context later after) ∧
        ∀ outcome later, Runs (.program statements) context state outcome later →
          (∃ least, ∀ bound, least ≤ bound →
            ∃ after, Run.interpretWith (Run.within bound) root machine = ended outcome after ∧
              Represents context later after) ∧
          ∀ other last, Runs (.program statements) context state other last →
            outcome = other ∧ later = last := by
  intro read root machine context
  obtain ⟨-, statements, derivation, nearest⟩ := derives_of_accepts accepted
  have stands := stands_of_accepts session.machine derivation nearest
  refine ⟨statements, derivation, nearest, reachable.meaningful.readSource source,
    fun state represents => ⟨fun bound outcome after ends => ?_,
      fun outcome later runs => ⟨?_, fun other last otherRuns => ?_⟩⟩⟩
  · exact ((sound_within bound).interpretWith represents stands).of_ended ends
  · obtain ⟨least, carries⟩ := runs.eventually
    refine ⟨least, fun bound enough => ?_⟩
    obtain ⟨after, ends, last, -⟩ := carries bound bound enough enough represents (.program stands)
    exact ⟨after, ends, last⟩
  · exact runs.unique otherRuns represents fun steps rounds => ⟨_, .program stands⟩

/-- A block that writes, on a new session. -/
theorem interpretWith_iff_runs_of_block :
    let session := ofSettings .standard (.ofFiles ⟨[]⟩ [])
    let source := "\x7b let a = \"x\"; echo a + \"y\"; \x7d"
    let machine := (session.machine.readSource source).2
    session.Reachable ∧ accepts source = true ∧
      ∃ statements state later,
        Statement.Derives .declarations (tokensOf source).body [] statements ∧
        Represents (contextOf machine) state machine ∧
        Runs (.program statements) (contextOf machine) state (.ok ()) later ∧
        later.host.output = "xy\n" := by
  intro session source machine
  have start := Reachable.new .standard (.ofFiles ⟨[]⟩ [])
  have accepted : accepts source = true := by decide +kernel
  obtain ⟨statements, derivation, -, ⟨state, represents⟩, agrees⟩ :=
    interpretWith_iff_runs start accepted
  have clean : (session.run source).1.isClean = true := by decide +kernel
  have written : (session.run source).2.output = "xy\n" := by decide +kernel
  obtain ⟨report, left⟩ := session.run_of_faultless (List.isEmpty_iff.mp accepted)
  unfold output at written
  rw [report] at clean
  rw [left] at written
  cases ends : Run.interpret (session.machine.readSource source).1.1 machine with
  | ok value after =>
      obtain ⟨later, runs, last⟩ := (agrees state represents).1 Run.ample (.ok value) after ends
      rw [ends] at written
      exact ⟨start, accepted, statements, state, later, derivation, represents, runs,
        last.host ▸ written⟩
  | error interrupt after =>
      rw [ends] at clean
      cases interrupt <;> cases clean

end Session
end Scripting
