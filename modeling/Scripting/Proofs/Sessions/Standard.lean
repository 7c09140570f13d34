import Scripting.Proofs.Running.Plans
import Scripting.Proofs.Sessions.Programs

/-!
# The functions of a session

A new session has the standard functions, each bound under its name.  In every session the
functions that no program has declared are the standard ones, whatever the limit on calls is.

Main statements: `Session.store_ofSettings`, `Session.Reachable.standard`,
`Session.Reachable.standard_limited`.
-/

namespace Scripting

/-- The machine, with another limit on the number of active calls. -/
def Machine.limited (machine : Machine) (limit : Nat) : Machine :=
  { machine with limit := limit }

theorem Bindings.bind_of_unbound
    {bindings : Bindings}
    {name : String}
    (unbound : name ∉ bindings.map Prod.fst)
    (value : Value) :
    bindings.bind name value = bindings ++ [(name, value)] := by
  induction bindings with
  | nil => rfl
  | cons binding rest inductionHypothesis =>
      rw [List.map_cons, List.mem_cons, not_or] at unbound
      rw [bind, if_neg (Ne.symm unbound.1), inductionHypothesis unbound.2, List.cons_append]

/-- Functions with different names, which are added to a machine, are each bound under its
name, in their order. -/
theorem Machine.store_foldl_addBuiltin
    {added : List Builtin}
    {machine : Machine}
    {bindings : Bindings}
    (frames : machine.store.frames = #[bindings])
    (distinct : (bindings.map Prod.fst ++ added.map Builtin.name).Nodup) :
    (added.foldl Machine.addBuiltin machine).store =
      { frames := #[bindings ++ (added.zipIdx machine.store.callables.size).map
          fun given => (given.1.name, Value.callable given.2)]
        arrays := machine.store.arrays
        callables := machine.store.callables ++ (added.map Callable.builtin).toArray } := by
  induction added generalizing machine bindings with
  | nil => simp [← frames]
  | cons builtin others inductionHypothesis =>
      have unbound : builtin.name ∉ bindings.map Prod.fst := fun member =>
        (List.nodup_append.mp distinct).2.2 _ member _ List.mem_cons_self rfl
      have binding := Bindings.bind_of_unbound unbound (.callable machine.store.callables.size)
      have next : (machine.addBuiltin builtin).store.frames =
          #[bindings ++ [(builtin.name, .callable machine.store.callables.size)]] := by
        rw [← binding]
        simp [Machine.addBuiltin, Store.addCallable, Store.define, Store.bindIn, Scope.global,
          frames, Store.nextCallable]
      have arrays : (machine.addBuiltin builtin).store.arrays = machine.store.arrays := rfl
      have callables : (machine.addBuiltin builtin).store.callables =
          machine.store.callables.push (.builtin builtin) := rfl
      rw [List.foldl_cons, inductionHypothesis next (by simpa using distinct), arrays, callables]
      simp

namespace Session

/-- A new session binds the standard functions under their names, and nothing else. -/
theorem store_ofSettings (settings : Settings) (host : Host) :
    (ofSettings settings host).machine.store =
      { frames := #[Builtin.standard.zipIdx.map fun given => (given.1.name, .callable given.2)]
        arrays := #[]
        callables := (Builtin.standard.map Callable.builtin).toArray } := by
  have frames : (Machine.bare host).store.frames = #[[]] := rfl
  refine (Machine.store_foldl_addBuiltin frames (by decide)).trans ?_
  simp [Machine.bare, Store.fresh]

/-- The built-in functions are those that have been added. -/
theorem builtins_of_foldl
    {added : List Builtin}
    {machine : Machine}
    (isStandard : ∀ builtin ∈ added, builtin ∈ Builtin.standard)
    (before : ∀ place given, machine.store.callable? place = some (.builtin given) →
      given ∈ Builtin.standard) :
    ∀ place given,
      (added.foldl Machine.addBuiltin machine).store.callable? place = some (.builtin given) →
        given ∈ Builtin.standard := by
  induction added generalizing machine with
  | nil => exact before
  | cons builtin others inductionHypothesis =>
      rw [List.forall_mem_cons] at isStandard
      refine inductionHypothesis isStandard.2 fun place given stored => ?_
      have pushed : (machine.store.addCallable (.builtin builtin)).callable? place =
          some (.builtin given) := stored
      obtain there | same := Store.callable?_addCallable_cases pushed
      · exact before place given there
      · cases same
        exact isStandard.1

/-- A new session has the standard built-in functions. -/
theorem standard_ofSettings
    (settings : Settings)
    (host : Host) :
    (ofSettings settings host).machine.Standard where
  toParsed := parsed_ofSettings settings host
  builtins := by
    have none : ∀ place given,
        (Machine.bare host).store.callable? place = some (.builtin given) →
          given ∈ Builtin.standard :=
      fun _ _ stored => nomatch stored
    exact builtins_of_foldl (fun _ member => member) none

/-- In all sessions the functions that no program has declared are the standard ones. -/
theorem Reachable.standard
    {session : Session}
    (reachable : session.Reachable) :
    session.machine.Standard :=
  Reachable.holds Regime.standard standard_ofSettings reachable

/-- The session, with another limit on the number of active calls. -/
def limited (session : Session) (limit : Nat) : Session :=
  { session with machine := session.machine.limited limit }

theorem Reachable.standard_limited
    {session : Session}
    (reachable : session.Reachable)
    (limit : Nat) :
    (session.limited limit).machine.Standard :=
  reachable.standard.of_same rfl rfl

end Session
end Scripting
