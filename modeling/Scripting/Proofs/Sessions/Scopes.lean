import Scripting.Proofs.Running.Scopes
import Scripting.Proofs.Sessions.Kept

/-!
# Scopes in sessions

In the course of all inputs of a session, at every errand, the frames of the machine are
nested and every way out ends in the global scope.  Every block and every call of a
declared function is run in a scope that did not exist before, and leaves the names of all
scopes that did exist as they were (`Errand.StaysApart`).

Main statement: `Session.scopes_stay_apart`.
-/

namespace Scripting

/-- The frames of the machine are nested, and the way out of each of them is finite, meets
no frame twice, and ends in the global scope. -/
def Machine.ScopesNested (machine : Machine) : Prop :=
  ∃ around, machine.Nests around ∧ ∀ frame < machine.store.frames.size,
    (frame :: around frame).Nodup ∧ (frame :: around frame).getLast? = some Scope.global.frame

theorem Machine.Nests.scopesNested
    {machine : Machine}
    {around : FrameId → List FrameId}
    (nests : machine.Nests around) :
    machine.ScopesNested := by
  refine ⟨around, nests, fun frame earlier => ?_⟩
  obtain ⟨descending, last⟩ := nests.descends earlier
  exact ⟨descending.imp fun later => Nat.ne_of_gt later, last⟩

/-- The later machine is what is left when the statements of the node have been executed in
a new scope inside the given one. Every frame of the machine binds the names that it bound. -/
structure Machine.RunsApart
    (machine : Machine)
    (outer : Scope)
    (bindings : List (String × Value))
    (node : Tree.Node)
    (bound : Nat)
    (later : Machine) : Prop where
  inside : later =
    { machineAfter ((Run.within bound).executeAll node.children
        (machine.opening outer bindings)) with scope := machine.scope }
  new : ¬ (machine.opening outer bindings).scope.frame < machine.store.frames.size
  names : machine.SameNames later

/-- When the errand is to execute a block or to call a declared function, it is done in a
new scope, within any bound and however it ends. -/
def Errand.StaysApart (errand : Errand) (machine : Machine) : Prop :=
  match errand with
  | .execute id =>
      ∀ node, machine.arena.node? id = some node → node.kind = .block → ∀ bound,
        machine.RunsApart machine.scope [] node bound
          (machineAfter (Run.executeWithin (bound + 1) id machine))
  | .call (.function declared) arguments =>
      ∀ body, machine.arena.node? declared.body = some body → ∀ bound,
        machine.RunsApart declared.closure (declared.parameters.zip arguments) body bound
          (machineAfter (Run.callWithin (bound + 1) (.function declared) arguments machine))
  | _ => True

namespace Machine.Nests

variable {machine : Machine} {around : FrameId → List FrameId} (nests : machine.Nests around)

include nests

theorem runsApart_executeBlock
    {outer : Scope}
    (nested : ∀ around, machine.Nests around →
      outer.NestedIn around machine.store.frames.size)
    (bindings : List (String × Value))
    (node : Tree.Node)
    (bound : Nat) :
    machine.RunsApart outer bindings node bound
      (machineAfter ((Run.within bound).executeBlock outer bindings node machine)) := by
  have obey : Regime.scopes.StepsObey _ (Run.watched (fun _ _ => True) .exhausted bound) :=
    Regime.obeys_within (fun _ _ _ _ => trivial) .exhausted bound
  let inner := machine.opening outer bindings
  have holds : Regime.scopes.holds inner := ⟨_, nests.opening bindings (nested around nests)⟩
  have executed : Regime.scopes.Reaches inner
      (machineAfter ((Run.within bound).executeAll node.children inner)) :=
    (Regime.Obeys.executeAll obey (fun _ _ => trivial) inner (.refl inner) holds).2
  rw [Steps.executeBlock_eq, machineAfter_resultIn]
  exact ⟨rfl, Nat.lt_irrefl _, (executed.leads.of_opening bindings nested).2⟩

/-- Where frames are nested, blocks and calls are run in scopes of their own. -/
theorem staysApart
    {errand : Errand}
    (fits : Regime.scopes.fits errand machine) :
    errand.StaysApart machine := by
  cases errand with
  | evaluate id => trivial
  | execute id =>
      intro node found kind bound
      have execution : Run.executeWithin (bound + 1) id machine =
          (Run.within bound).executeBlock machine.scope [] node machine := by
        simp only [Run.executeWithin, atLevel_eq]
        exact Steps.executeNode_block _ found kind
      rw [execution]
      exact nests.runsApart_executeBlock (fun _ nests => nests.scope) [] node bound
  | call callable arguments =>
      cases callable with
      | builtin given => trivial
      | function declared =>
          intro body found bound
          obtain ⟨place, stored⟩ := fits
          have call :
              machineAfter (Run.callWithin (bound + 1) (.function declared) arguments machine) =
                machineAfter ((Run.within bound).executeBlock declared.closure
                  (declared.parameters.zip arguments) body machine) := by
            simp only [Run.callWithin, atLevel_eq]
            exact Steps.machineAfter_callFunction _ found arguments
          rw [call]
          exact nests.runsApart_executeBlock (fun _ nests => nests.closures place declared stored)
            _ body bound

end Machine.Nests

namespace Session

/-- The frames of a new session are nested: there is none but the global one. -/
theorem nests_ofSettings :
    ∀ (settings : Settings) (host : Host),
      (ofSettings settings host).machine.Nests fun _ => [] := by
  refine holds_ofSettings (fun machine => machine.Nests fun _ => []) (fun host => ?bare)
    (fun machine builtin nests => ?added) fun _ _ _ nests => nests.of_eq rfl rfl
  case bare =>
    refine ⟨Nat.one_pos, rfl, fun frame inner bound => ?_, ⟨Nat.one_pos, rfl⟩, fun _ _ stored => ?_⟩
    · exact absurd bound (Nat.not_lt_of_le inner)
    · cases stored
  case added =>
    have frames : (machine.addBuiltin builtin).store.frames.size = machine.store.frames.size :=
      Store.size_bindIn ..
    exact nests.of_closures rfl frames fun _ _ stored => .inl (callable?_of_addBuiltin stored)

/-- In the course of a session the frames are nested, and blocks and calls are run in scopes
of their own. This is so between the inputs, and at everything that is begun while an input
is run, whatever it is and within any bound. -/
theorem scopes_stay_apart
    {session : Session}
    (reachable : session.Reachable) :
    session.machine.ScopesNested ∧
      ∀ (source : String) (bound : Nat),
        Run.Throughout (fun errand machine => machine.ScopesNested ∧ errand.StaysApart machine)
          bound (Run.programWith · source) session.machine := by
  have holds : Regime.scopes.holds session.machine :=
    Reachable.holds Regime.scopes (fun settings host => ⟨_, nests_ofSettings settings host⟩)
      reachable
  refine ⟨holds.elim fun _ nests => nests.scopesNested, fun source bound => ?_⟩
  apply Regime.throughout_program _ bound source holds
  rintro errand machine ⟨around, nests⟩ fits
  exact ⟨nests.scopesNested, nests.staysApart fits⟩

/-- The call of a function has left a frame of its own behind, and frames stay apart when
the function is called again in a block. -/
theorem scopes_stay_apart_of_function :
    let start := ofSettings .standard (.ofFiles ⟨[]⟩ [])
    let called := start.run "fn f() \x7b let a = null; \x7d f();"
    called.2.Reachable ∧ called.1.isClean = true ∧
      called.2.machine.store.frames.size = 2 ∧ called.2.machine.ScopesNested ∧
      ∀ bound,
        Run.Throughout (fun errand machine => machine.ScopesNested ∧ errand.StaysApart machine)
          bound (Run.programWith · "\x7b let b = null; f(); \x7d") called.2.machine := by
  intro start called
  have reachable : called.2.Reachable := .run _ (.new _ _)
  obtain ⟨nested, apart⟩ := scopes_stay_apart reachable
  exact ⟨reachable, by decide +kernel, by decide +kernel, nested, apart _⟩

end Session
end Scripting
