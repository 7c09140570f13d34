import Scripting.Proofs.Running.Closed
import Scripting.Proofs.Sessions.Kept

/-!
# Everything in a session is there that is referred to

The values of a new session are its functions, and its inputs leave its store complete.  So at
the beginning of every input no value refers to an array or a function that the store does not
have.

Main statements: `Session.Reachable.complete`, `Session.Reachable.closed`.
-/

namespace Scripting

namespace Session

theorem complete_addBuiltin
    (machine : Machine)
    (builtin : Builtin)
    (complete : machine.store.Complete) :
    (machine.addBuiltin builtin).store.Complete := by
  have added : (machine.store.addCallable (.builtin builtin)).Complete :=
    (Store.Holds.addCallable ⟨complete, .refl machine.store⟩ (.builtin builtin)).complete
  have function : (machine.store.addCallable (.builtin builtin)).Has
      (.callable machine.store.nextCallable) := by
    simp [Store.Has, Store.addCallable, Store.nextCallable]
  exact (Store.Holds.bindIn ⟨added, .refl _⟩ Scope.global.frame builtin.name function).complete

theorem complete_run
    {session : Session}
    (complete : session.machine.store.Complete)
    (source : String) :
    (session.run source).2.machine.store.Complete := by
  by_cases faultless : faultsOf source = []
  · have encloses : Run.Encloses session.machine.store Run.anything
        (Run.interpret (session.machine.readSource source).1.1) :=
      .interpretWith (.within _) _
    have read : (session.machine.readSource source).2.store.Holds session.machine.store :=
      ⟨complete, .refl _⟩
    rw [(session.run_of_faultless faultless).2]
    exact (encloses.holds_machineAfter read).complete
  · rw [(session.run_of_faults faultless).2]
    exact complete

/-- In every session that can arise the store is complete. -/
theorem Reachable.complete
    {session : Session}
    (reachable : session.Reachable) :
    session.machine.store.Complete := by
  induction reachable with
  | new settings host =>
      exact holds_ofSettings (fun machine => machine.store.Complete) (fun _ => Store.complete_fresh)
        complete_addBuiltin (fun _ _ _ complete => complete) settings host
  | run source _ inductionHypothesis => exact complete_run inductionHypothesis source
  | @runStartup session _ inductionHypothesis =>
      unfold Session.runStartup
      cases session.settings.startup with
      | none => exact inductionHypothesis
      | some path =>
          let asked : Session :=
            { session with
              machine := { session.machine with
                host := session.machine.host.wishing (.path path) } }
          have complete : asked.machine.store.Complete := inductionHypothesis
          dsimp only
          cases session.machine.host.files.read path with
          | ok source => exact complete_run complete source
          | error problem => exact complete
  | resetError _ inductionHypothesis => exact inductionHypothesis
  | notice line _ inductionHypothesis => exact inductionHypothesis
  | print line _ inductionHypothesis => exact inductionHypothesis

/-- In every session that can arise the store is closed. -/
theorem Reachable.closed
    {session : Session}
    (reachable : session.Reachable) :
    session.machine.store.Closed :=
  reachable.complete.closed

end Session
end Scripting
