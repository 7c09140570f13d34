import Scripting.Proofs.Sessions.Runs

/-!
# What is put back

Blocks, calls and programs work in another scope, with one call more, or with a top
level of their own.  However such work ends, the scope and both counts are put back,
so whatever is evaluated, executed or called leaves them as it found them
(`restores_within`).  Since they stand at their first values in a new session, every
input of a session finds them there, whatever the inputs before it did.

Main statement: `Session.restores_and_atRest`.
-/

namespace Scripting

variable {α : Type}

/-- The later machine works in the same scope, with as many calls active and with as
many of them below the top level. -/
structure Machine.Restored (machine later : Machine) : Prop where
  scope : later.scope = machine.scope
  depth : later.depth = machine.depth
  base : later.base = machine.base

/-- Nothing is under way: the scope is the global one and no call is active. -/
structure Machine.AtRest (machine : Machine) : Prop where
  scope : machine.scope = Scope.global
  depth : machine.depth = 0
  base : machine.base = 0

/-- However the work ends on any machine, scope and counts are those of before. -/
def Restores (work : Run α) : Prop :=
  ∀ machine : Machine, machine.Restored (machineAfter (work machine))

theorem Machine.Later.restored
    {machine later : Machine}
    (after : machine.Later later) :
    machine.Restored later :=
  ⟨after.scope, after.depth, after.base⟩

/-- What restores a machine at rest leaves it at rest. -/
theorem Machine.AtRest.of_restored
    {machine later : Machine}
    (rest : machine.AtRest)
    (restored : machine.Restored later) :
    later.AtRest :=
  ⟨restored.scope.trans rest.scope, restored.depth.trans rest.depth, restored.base.trans rest.base⟩

/-- Work that follows the course of all runs restores scope and counts. -/
theorem restores_of_follows
    {work : Run α}
    (follows : Course.later.Follows work) :
    Restores work :=
  fun machine => (follows machine).restored

/-- Within any bound, whatever is evaluated, executed or called restores scope and
counts, and so does a program or a source that is run as a whole. -/
theorem restores_within (bound : Nat) :
    (∀ id, Restores (Run.evaluateWithin bound id)) ∧
      (∀ id, Restores (Run.executeWithin bound id)) ∧
      (∀ callable arguments, Restores (Run.callWithin bound callable arguments)) ∧
      (∀ paren target arguments,
        Restores ((Run.within bound).callValue paren target arguments)) ∧
      (∀ root, Restores (Run.interpretWith (Run.within bound) root)) ∧
      ∀ source, Restores (Run.sourceWith (Run.within bound) source) := by
  have follows := Course.later.follows_within bound
  have calls (paren : Token) (target : Value) (arguments : Array Value) :
      Course.later.Follows ((Run.within bound).callValue paren target arguments) := by
    rw [Steps.callValue_eq]
    cases target with
    | callable id =>
        exact (Course.Follows.callableAt? id).bind fun found =>
          Course.Follows.callFound follows paren arguments found
    | _ => exact Course.Follows.callFound follows paren arguments none
  refine ⟨fun id => ?evaluated, fun id => ?executed, fun callable arguments => ?called,
    fun paren target arguments => ?invoked, fun root => ?interpreted, fun source => ?run⟩
  case evaluated => exact restores_of_follows (follows.evaluate id)
  case executed => exact restores_of_follows (follows.execute id)
  case called => exact restores_of_follows (follows.call callable arguments)
  case invoked => exact restores_of_follows (calls paren target arguments)
  case interpreted => exact restores_of_follows (Course.Follows.interpretWith follows root)
  case run => exact restores_of_follows (Course.Follows.sourceWith follows source)

namespace Session

/-- Adding the built-in functions starts nothing. -/
theorem atRest_foldl
    (builtins : List Builtin)
    {machine : Machine}
    (rest : machine.AtRest) :
    (builtins.foldl Machine.addBuiltin machine).AtRest := by
  induction builtins generalizing machine with
  | nil => exact rest
  | cons builtin others inductionHypothesis =>
      exact inductionHypothesis ⟨rest.scope, rest.depth, rest.base⟩

/-- Between its inputs nothing is under way in a session. -/
theorem Reachable.atRest
    {session : Session}
    (reachable : session.Reachable) :
    session.machine.AtRest := by
  induction reachable with
  | new settings host =>
      have rest : (Machine.ofHost host).AtRest := atRest_foldl _ ⟨rfl, rfl, rfl⟩
      unfold ofSettings
      -- The fields need not be computed from the list of built-in functions.
      generalize Machine.ofHost host = machine at rest ⊢
      exact ⟨rest.scope, rest.depth, rest.base⟩
  | @run session source _ inductionHypothesis =>
      have after : session.machine.Later (session.run source).2.machine := later_run session source
      exact inductionHypothesis.of_restored after.restored
  | @runStartup session _ inductionHypothesis =>
      unfold Session.runStartup
      cases session.settings.startup with
      | none => exact inductionHypothesis
      | some path =>
          dsimp only
          have asked : Machine.AtRest
              { session.machine with host := session.machine.host.wishing (.path path) } :=
            ⟨inductionHypothesis.scope, inductionHypothesis.depth, inductionHypothesis.base⟩
          cases session.machine.host.files.read path with
          | ok source =>
              have after := later_run
                { session with
                  machine := { session.machine with
                    host := session.machine.host.wishing (.path path) } } source
              exact asked.of_restored after.restored
          | error problem => exact asked
  | resetError _ inductionHypothesis => exact inductionHypothesis
  | notice line _ inductionHypothesis => exact inductionHypothesis
  | print line _ inductionHypothesis =>
      exact ⟨inductionHypothesis.scope, inductionHypothesis.depth, inductionHypothesis.base⟩

/-- Whatever is evaluated, executed, called or run, on whatever machine and however it
ends, leaves the scope, the number of active calls and the number of those below the top
level as they were. So every input of a session, also after any failures, is read and
executed in the global scope while no call is active. -/
theorem restores_and_atRest :
    (∀ bound,
      (∀ id, Restores (Run.evaluateWithin bound id)) ∧
      (∀ id, Restores (Run.executeWithin bound id)) ∧
      (∀ callable arguments, Restores (Run.callWithin bound callable arguments)) ∧
      (∀ paren target arguments,
        Restores ((Run.within bound).callValue paren target arguments)) ∧
      (∀ root, Restores (Run.interpretWith (Run.within bound) root)) ∧
      ∀ source, Restores (Run.sourceWith (Run.within bound) source)) ∧
    ∀ session : Session, session.Reachable →
      session.machine.AtRest ∧
        ∀ source, (session.machine.readSource source).2.AtRest ∧
          (session.run source).2.machine.AtRest := by
  refine ⟨restores_within, fun session reachable => ⟨reachable.atRest, fun source => ⟨?_, ?_⟩⟩⟩
  · have rest := reachable.atRest
    exact ⟨rest.scope, rest.depth, rest.base⟩
  · exact (Reachable.run source reachable).atRest

/-- A name that is missing in a block in a function stops this input, and the next one
begins at rest. -/
theorem restores_and_atRest_of_fault :
    let start := ofSettings .standard (.ofFiles ⟨[]⟩ [])
    let failed := start.run "fn f() \x7b \x7b let a = null; echo missing; \x7d \x7d f();"
    failed.2.Reachable ∧ failed.1.isClean = false ∧
      (failed.2.machine.readSource "echo null;").2.AtRest := by
  intro start failed
  have reachable : failed.2.Reachable := .run _ (.new _ _)
  exact ⟨reachable, by decide +kernel, ((restores_and_atRest.2 _ reachable).2 "echo null;").1⟩

end Session
end Scripting
