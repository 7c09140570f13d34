import Scripting.Proofs.Running.Obedience
import Scripting.Proofs.Sessions.Runs

/-!
# Sessions keep to every regime

What holds of every new session, whatever its settings and surroundings, holds of every
session that can arise, when it belongs to a regime: an input that is only read is a small
step, and one that is executed is a program.

Main statements: `Session.holds_ofSettings`, `Session.holds_runAll`,
`Session.Reachable.holds`.
-/

namespace Scripting
namespace Session

/-- An input is only read, or it is run as a program. -/
theorem run_machine (session : Session) (source : String) :
    (session.run source).2.machine = (session.machine.readSource source).2 ∨
      (session.run source).2.machine =
        machineAfter (Run.programWith (Run.within Run.ample) source session.machine) := by
  by_cases faultless : faultsOf source = []
  · exact .inr (session.run_of_faultless faultless).2
  · exact .inl (session.run_of_faults faultless).2

/-- The session after some more inputs. -/
def runAll (session : Session) : List String → Session
  | [] => session
  | source :: others => (session.run source).2.runAll others

theorem Reachable.runAll
    {session : Session}
    (reachable : session.Reachable)
    (sources : List String) :
    (session.runAll sources).Reachable := by
  induction sources generalizing session with
  | nil => exact reachable
  | cons source others inductionHypothesis => exact inductionHypothesis (reachable.run source)

/-- A built-in function that is added is none that a program has declared. -/
theorem callable?_of_addBuiltin
    {machine : Machine}
    {builtin : Builtin}
    {place : CallableId}
    {declared : Function}
    (stored : (machine.addBuiltin builtin).store.callable? place = some (.function declared)) :
    machine.store.callable? place = some (.function declared) := by
  have added : (machine.store.addCallable (.builtin builtin)).callable? place =
      some (.function declared) := stored
  obtain before | same := Store.callable?_addCallable_cases added
  · exact before
  · cases same

/-- What holds of a machine without functions, and still does when built-in functions are
added and settings are made, holds of every new session. -/
theorem holds_ofSettings
    (holds : Machine → Prop)
    (bare : ∀ host, holds (.bare host))
    (added : ∀ (machine : Machine) builtin, holds machine → holds (machine.addBuiltin builtin))
    (set : ∀ (machine : Machine) limit libraries, holds machine →
      holds { machine with limit := limit, libraries := libraries })
    (settings : Settings)
    (host : Host) :
    holds (ofSettings settings host).machine := by
  have standard : ∀ (builtins : List Builtin) (machine : Machine), holds machine →
      holds (builtins.foldl Machine.addBuiltin machine) := by
    intro builtins
    induction builtins with
    | nil => exact fun _ held => held
    | cons builtin others inductionHypothesis =>
        exact fun machine held => inductionHypothesis _ (added machine builtin held)
  exact set _ _ _ (standard _ _ (bare host))

section Regime

variable (regime : Regime)

theorem holds_run
    {session : Session}
    (holds : regime.holds session.machine)
    (source : String) :
    regime.holds (session.run source).2.machine := by
  obtain same | same := session.run_machine source
  · rw [same]
    exact (regime.step holds (.read session.machine source)).1
  · rw [same]
    exact (Regime.reaches_program Run.ample source holds).holds

theorem holds_runAll
    {session : Session}
    (holds : regime.holds session.machine)
    (sources : List String) :
    regime.holds (session.runAll sources).machine := by
  induction sources generalizing session with
  | nil => exact holds
  | cons source others inductionHypothesis =>
      exact inductionHypothesis (holds_run regime holds source)

theorem holds_runStartup
    {session : Session}
    (holds : regime.holds session.machine) :
    regime.holds session.runStartup.2.machine := by
  unfold Session.runStartup
  cases session.settings.startup with
  | none => exact holds
  | some path =>
      have asked := (regime.step holds (.ask (.wish _ (.path path)))).1
      dsimp only
      cases session.machine.host.files.read path with
      | ok source => exact holds_run regime asked source
      | error problem => exact asked

/-- What holds of all new sessions holds of all sessions that can arise. -/
theorem Reachable.holds
    (start : ∀ settings host, regime.holds (ofSettings settings host).machine)
    {session : Session}
    (reachable : session.Reachable) :
    regime.holds session.machine := by
  induction reachable with
  | new settings host => exact start settings host
  | run source _ inductionHypothesis => exact holds_run regime inductionHypothesis source
  | runStartup _ inductionHypothesis => exact holds_runStartup regime inductionHypothesis
  | resetError _ inductionHypothesis => exact inductionHypothesis
  | notice line _ inductionHypothesis => exact inductionHypothesis
  | print line _ inductionHypothesis =>
      exact (regime.step inductionHypothesis (.ask (.write _ _))).1

end Regime
end Session
end Scripting
