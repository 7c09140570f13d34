import Scripting.Proofs.Running.Aliases
import Scripting.Proofs.Running.Equality
import Scripting.Proofs.Sessions.Closed
import Scripting.Proofs.Sessions.Rejected
import Scripting.Proofs.Sessions.Scopes
import Scripting.Proofs.Sessions.Standard

/-!
# The identity of values

Arrays and functions are told apart by their places, and a place is given away once.  So
whatever happens in a session, two values that are equal stay so, and so do two that are not;
an array or a function that is made is equal to nothing that has been there before, and to
everything that is obtained from it by copying (`Happening.Identifies`).

Main statement: `Session.values_keep_identity`.
-/

namespace Scripting

/-! ## Values that are there -/

theorem Store.Has.of_same
    {store : Store}
    {left right : Value}
    (has : store.Has left)
    (same : left.same right = true) :
    store.Has right := by
  cases left <;> cases right <;> simp_all [Value.same, Store.Has]

/-- What the one store has is unequal to what it has not. -/
theorem Store.Has.same_eq_false
    {store : Store}
    {old new : Value}
    (has : store.Has old)
    (isNew : ¬ store.Has new) :
    old.same new = false ∧ new.same old = false := by
  refine ⟨Bool.eq_false_iff.mpr fun same => isNew (has.of_same same), ?_⟩
  exact Bool.eq_false_iff.mpr fun same => isNew (has.of_same (Value.same_symm same))

/-- A number is in every store. -/
theorem Value.IsNaN.has {value : Value} (isNaN : value.IsNaN) (store : Store) :
    store.Has value := by
  obtain ⟨number, rfl, -⟩ := isNaN
  trivial

/-! ## Happenings -/

/-- The errand is to evaluate a comparison of two values, by an operator of this kind. -/
inductive Activity.Asks : Activity → Token.Kind → Value → Value → Prop
  | operator {id : Option Tree.NodeId} {machine first middle : Machine} {bound : Nat}
      {node : Tree.Node} {left right : Value} :
      machine.arena.node? id = some node → node.kind = .binary →
      (Run.within bound).evaluate (node.child 0) machine = .ok left first →
      (Run.within bound).evaluate (node.child 1) first = .ok right middle →
        Asks ⟨⟨.evaluate id, machine⟩, bound + 1⟩ node.token.kind left right

/-- The answer is what any machine judges. -/
theorem Activity.Asks.answer?_eq
    {activity : Activity}
    {kind : Token.Kind}
    {left right : Value}
    {machine : Machine}
    {answer : Bool}
    (asks : activity.Asks kind left right)
    (isEquality : kind ∈ Token.equality)
    (judged : machine.Judges kind left right answer) :
    activity.answer? = some (.bool answer) := by
  cases asks with
  | @operator id start first middle bound node left right isNode kind first second =>
      have here := judged.of_equality isEquality middle node.token rfl
      have compares : (Run.within bound).evaluateNode id start = .ok (.bool answer) middle := by
        simp only [Steps.evaluateNode, Run.bind_of_ok (Run.node?_of_eq isNode), kind,
          Run.bind_of_ok first, Run.bind_of_ok second, here]
      exact Activity.answer?_of_ok ((Activity.outcome_evaluate id start bound).trans compares)

namespace Happening

/-- Two values that were at hand at the one happening are judged in the same way at the later
one, where the arrays have their elements, too; and what is made there is unequal to them, then
and ever after. -/
structure Identifies (earlier later : Happening) : Prop where
  retains : earlier.machine.store.Retains later.machine.store
  judges : ∀ kind ∈ Token.equality, ∀ left right answer, earlier.Holds left → earlier.Holds right →
    earlier.machine.Judges kind left right answer → later.machine.Judges kind left right answer
  new : ∀ old made, earlier.Holds old → later.Makes made → ∀ machine : Machine,
    machine.Judges .equalEqual old made false ∧ machine.Judges .equalEqual made old false

theorem Precedes.identifies
    {earlier later : Happening}
    (precedes : earlier.Precedes later)
    (sound : earlier.activity.Sound) :
    earlier.Identifies later where
  retains := precedes.retains
  judges _ isEquality _ _ _ _ _ judged := judged.of_equality isEquality later.machine
  new old made held makes machine := by
    rw [Machine.judges_equal_iff, Machine.judges_equal_iff]
    obtain ⟨first, second⟩ := (held.has sound).same_eq_false (precedes.isNew made makes)
    exact ⟨first.symm, second.symm⟩

/-- What is obtained from an array or a function by copying is equal to it at all times. -/
theorem Aliases.judges
    {happenings : List Happening}
    {activity : Activity}
    {made other : Value}
    (aliases : Aliases happenings made other)
    (sound : ∀ happening ∈ happenings, happening.activity.Sound)
    (member : .ends activity ∈ happenings)
    (makes : activity.Makes made)
    (machine : Machine) :
    machine.Judges .equalEqual other made true ∧ machine.Judges .equalEqual made other true := by
  obtain rfl := aliases.eq sound
  have isNew := (makes.lacks (sound _ member)).1
  have equal := (machine.compares.reflexive other).mpr fun isNaN => isNew (isNaN.has _)
  exact ⟨equal, equal⟩

/-- What happens, one after the other, leaves values what they are. -/
structure KeepIdentity (happenings : List Happening) : Prop where
  /-- At every time `==` is an equality, but for what is not a number. -/
  compares : ∀ happening ∈ happenings, happening.machine.Compares
  /-- A comparison is answered as it is judged. -/
  asks : ∀ activity, .ends activity ∈ happenings → ∀ kind ∈ Token.equality, ∀ left right,
    activity.Asks kind left right → ∀ answer, activity.machine.Judges kind left right answer →
      activity.answer? = some (.bool answer)
  /-- What has been equal stays so, and what has not; what is made is equal to nothing before. -/
  identifies : happenings.Pairwise Identifies
  /-- A value is found wherever it is put. -/
  copies : ∀ activity, .ends activity ∈ happenings → ∀ value found,
    activity.Copies value found → found = some value
  /-- What is obtained from what is made is equal to it. -/
  aliases : ∀ activity, .ends activity ∈ happenings → ∀ made other, activity.Makes made →
    Aliases happenings made other → ∀ machine : Machine,
      machine.Judges .equalEqual other made true ∧ machine.Judges .equalEqual made other true

theorem KeepIdentity.of_lastsThrough
    {happenings : List Happening}
    {store later : Store}
    (through : store.LastsThrough happenings later)
    (sound : ∀ happening ∈ happenings, happening.activity.Sound) :
    KeepIdentity happenings where
  compares happening _ := happening.machine.compares
  asks _ _ _ isEquality _ _ asks _ judged := asks.answer?_eq isEquality judged
  identifies := through.pairwise.imp_of_mem fun earlier _ precedes =>
    precedes.identifies (sound _ earlier)
  copies _ member _ _ copies := copies.eq_some (sound _ member)
  aliases _ member _ _ makes aliases := aliases.judges sound member makes

end Happening

/-! ## Sessions -/

namespace Session

/-- Everything that happens in a session with some inputs, one input after the other. What is
rejected is not executed. -/
inductive Chronicle : Session → List String → List Happening → Prop
  | nothing (session : Session) : Chronicle session [] []
  | rejected {session : Session} {source : String} {sources : List String}
      {happenings : List Happening} :
      accepts source = false → Chronicle (session.run source).2 sources happenings →
        Chronicle session (source :: sources) happenings
  | executed {session : Session} {source : String} {sources : List String}
      {first happenings : List Happening} :
      accepts source = true →
      Run.Chronicle Run.ample (session.machine.rootOf source) first →
      Chronicle (session.run source).2 sources happenings →
        Chronicle session (source :: sources) (first ++ happenings)

variable {session : Session}

/-- A program may be run in every session, and refers to what is there. -/
theorem Reachable.sound_rootOf (reachable : session.Reachable) (source : String) :
    (session.machine.rootOf source).Sound := by
  have nests : Regime.scopes.holds session.machine :=
    Reachable.holds Regime.scopes (fun settings host => ⟨_, nests_ofSettings settings host⟩)
      reachable
  have holds : Regime.nested.holds session.machine := ⟨reachable.standard, nests⟩
  refine ⟨Regime.nested.enter holds (.program source), Regime.nested.root source holds,
    reachable.complete, fun callable arguments isCall => ?_⟩
  cases isCall

/-- Everything that happens in a session happens where it may, and refers to what is there. -/
theorem Reachable.exists_chronicle (reachable : session.Reachable) (sources : List String) :
    ∃ happenings, session.Chronicle sources happenings ∧
      (∀ happening ∈ happenings, happening.activity.Sound) ∧
      session.machine.store.LastsThrough happenings (session.runAll sources).machine.store := by
  induction sources generalizing session with
  | nil => exact ⟨[], .nothing session, by simp, .refl session.machine.store⟩
  | cons source others inductionHypothesis =>
      obtain ⟨happenings, chronicle, sound, through⟩ :=
        inductionHypothesis (reachable.run source)
      cases accepted : accepts source with
      | false =>
          obtain ⟨-, -, arena, -, machine⟩ := session.run_of_rejected accepted
          rw [machine] at through
          exact ⟨happenings, .rejected accepted chronicle, sound, through⟩
      | true =>
          obtain ⟨first, begins, areSound, before⟩ :=
            (reachable.sound_rootOf source).exists_chronicle Run.ample
          have same : (session.run source).2.machine =
              machineAfter (Run.programWith (Run.within Run.ample) source session.machine) :=
            (session.run_of_faultless (List.isEmpty_iff.mp accepted)).2
          have store : (session.run source).2.machine.store =
              (machineAfter ((Run.within Run.ample).outcome
                (session.machine.rootOf source))).store := by
            rw [same, Run.programWith_eq, Run.machineAfter_leave]
            rfl
          rw [store] at through
          refine ⟨first ++ happenings, .executed accepted begins chronicle,
            fun happening member => ?_, before.append through⟩
          exact (List.mem_append.mp member).elim (areSound happening) (sound happening)

/-- Whatever a session is given, `==` is an equality at every time, but for what is not a number,
and `!=` is its negation. It tells of two values at hand what it told before, whatever has
happened in between; an array that a literal or the function that splits a text makes, and a
function that is declared, is unequal to everything that has been at hand before; and what is
obtained by copying is the value itself, and so stays equal to what has been made. That is so
also from one input to the next, when inputs are rejected or fail, and when the last one is cut
off by a bound. -/
theorem values_keep_identity
    (reachable : session.Reachable)
    (sources : List String)
    (last : String)
    (bound : Nat) :
    ∃ happenings lastHappenings,
      session.Chronicle sources happenings ∧
      Run.Chronicle bound ((session.runAll sources).machine.rootOf last) lastHappenings ∧
      Happening.KeepIdentity (happenings ++ lastHappenings) := by
  obtain ⟨happenings, chronicle, sound, through⟩ := reachable.exists_chronicle sources
  obtain ⟨lastHappenings, lastChronicle, lastSound, lastThrough⟩ :=
    ((reachable.runAll sources).sound_rootOf last).exists_chronicle bound
  refine ⟨happenings, lastHappenings, chronicle, lastChronicle,
    .of_lastsThrough (through.append lastThrough) fun happening member => ?_⟩
  exact (List.mem_append.mp member).elim (sound happening) (lastSound happening)

/-- An array goes through a function and out of another array, and grows, and is what it was. -/
theorem values_keep_identity_of_alias :
    let session := ofSettings .standard (.ofFiles ⟨[]⟩ [])
    let sources := ["fn f(a) \x7b return a; \x7d let xs = [\"a\"]; let all = [xs];"]
    let last := "push(f(xs), \"b\"); echo all[0] == xs; echo [\"a\", \"b\"] == xs;"
    let ended := session.runAll sources
    session.Reachable ∧
      (machineAfter (Run.programWith (Run.within 30) last ended.machine)).host.output =
        "true\nfalse\n" ∧
      ∃ happenings lastHappenings,
        session.Chronicle sources happenings ∧
        Run.Chronicle 30 (ended.machine.rootOf last) lastHappenings ∧
        Happening.KeepIdentity (happenings ++ lastHappenings) := by
  intro session sources last ended
  have reachable : session.Reachable := .new _ _
  exact ⟨reachable, by decide +kernel, values_keep_identity reachable sources last 30⟩

end Session
end Scripting
