import Scripting.Proofs.Meaning.Represents
import Scripting.Proofs.Running.Course

/-!
# How work ends

Work either uses up its bound, or it ends with an outcome and in a state of which
something is known (`Ends`).  Either way the machine that it leaves stands for some
state.  What is known of work follows from what is known of its parts (`Ends.bind`).
-/

namespace Scripting
namespace Meaning

variable {α β : Type} {context : Context} {state : State} {machine after : Machine}
  {work other : Run α} {known whole : Except Fault α → State → Prop}

/-- The work uses up its bound. -/
def Exhausts (context : Context) (work : Run α) (machine : Machine) : Prop :=
  ∃ state after, work machine = .error .exhausted after ∧ Represents context state after ∧
    machine.arena ≤ after.arena

/-- The work uses up its bound, or something is known of how it ends. -/
def Ends (context : Context) (work : Run α) (machine : Machine)
    (known : Except Fault α → State → Prop) : Prop :=
  (∃ outcome state, Gives context work machine outcome state ∧ known outcome state) ∨
    Exhausts context work machine

namespace Ends

theorem of_gives
    {outcome : Except Fault α}
    (gives : Gives context work machine outcome state)
    (holds : known outcome state) :
    Ends context work machine known :=
  .inl ⟨outcome, state, gives, holds⟩

/-- Work that leaves the machine as it is. -/
theorem still
    (represents : Represents context state machine)
    {outcome : Except Fault α}
    (ends : work machine = ended outcome machine)
    (holds : known outcome state) :
    Ends context work machine known :=
  of_gives (.still represents ends) holds

theorem exhausted
    (represents : Represents context state machine)
    (ends : work machine = .error .exhausted machine) :
    Ends context work machine known :=
  .inr ⟨state, machine, ends, represents, Tree.Arena.le_refl _⟩

theorem mono
    (ends : Ends context work machine known)
    (implies : ∀ ⦃outcome state⦄, known outcome state → whole outcome state) :
    Ends context work machine whole :=
  ends.imp_left fun ⟨outcome, state, gives, holds⟩ => ⟨outcome, state, gives, implies holds⟩

/-- However work ends, the machine that it leaves stands for some state. -/
theorem represents (ends : Ends context work machine known) :
    ∃ state, Represents context state (machineAfter (work machine)) := by
  rcases ends with ⟨outcome, state, ⟨after, ends, represents, -⟩, -⟩ |
    ⟨state, after, ends, represents, -⟩
  · refine ⟨state, ?_⟩
    rw [ends]
    cases outcome <;> exact represents
  · refine ⟨state, ?_⟩
    rw [ends]
    exact represents

/-- What is known of work that has ended. -/
theorem of_ended
    {outcome : Except Fault α}
    (ends : Ends context work machine known)
    (equation : work machine = ended outcome after) :
    ∃ later, known outcome later ∧ Represents context later after := by
  rcases ends with ⟨result, later, ⟨last, ends, represents, -⟩, holds⟩ | ⟨state, last, ends, -⟩
  · obtain ⟨rfl, rfl⟩ := ended_injective (ends.symm.trans equation)
    exact ⟨later, holds, represents⟩
  · have same := ends.symm.trans equation
    cases outcome <;> cases same

/-- Work ends as the work does that is left when some of it has been done. -/
theorem onward
    (ends : Ends context other after known)
    (same : work machine = other after)
    (before : machine.arena ≤ after.arena) :
    Ends context work machine known := by
  rcases ends with ⟨outcome, state, ⟨last, ends, represents, onward⟩, holds⟩ |
    ⟨state, last, ends, represents, onward⟩
  · exact .inl ⟨outcome, state, ⟨last, same.trans ends, represents,
      Tree.Arena.le_trans before onward⟩, holds⟩
  · exact .inr ⟨state, last, same.trans ends, represents, Tree.Arena.le_trans before onward⟩

/-- Work ends as the work does that it is the same as. -/
theorem of_eq
    (same : work machine = other machine)
    (ends : Ends context other machine known) :
    Ends context work machine known :=
  ends.onward same (Tree.Arena.le_refl _)

/-- What comes after work is known when it is for every value, and a fault of the work is
a fault of the whole. -/
theorem bind
    {next : α → Run β}
    {whole : Except Fault β → State → Prop}
    (first : Ends context work machine known)
    (failure : ∀ ⦃fault later⦄, known (.error fault) later → whole (.error fault) later)
    (success : ∀ ⦃value between after⦄, known (.ok value) between →
      Represents context between after → machine.arena ≤ after.arena →
      Ends context (next value) after whole) :
    Ends context (work >>= next) machine whole := by
  rcases first with ⟨outcome, between, gives, holds⟩ | ⟨state, last, ends, represents, onward⟩
  · cases outcome with
    | ok value =>
        obtain ⟨after, ends, represents, before⟩ := gives
        exact (success holds represents before).onward (Run.bind_of_ok ends) before
    | error fault => exact .of_gives gives.bind_error (failure holds)
  · exact .inr ⟨state, last, Run.bind_of_error ends, represents, onward⟩

theorem inScope
    {scope : Scope}
    (inside : Ends (context.within scope) work { machine with scope := scope } known)
    (before : contextOf machine = context) :
    Ends context (Run.inScope scope work) machine known := by
  rcases inside with ⟨outcome, state, gives, holds⟩ | ⟨state, last, ends, represents, onward⟩
  · exact .of_gives (gives.inScope before) holds
  · refine .inr ⟨state, { last with scope := machine.scope }, ?_, ?_, onward⟩
    · unfold Run.inScope
      simp only [ends]
    · subst before
      exact represents.within machine.scope

theorem inCall
    {token : Token}
    (inside : Ends context.inCall work { machine with depth := machine.depth + 1 } known)
    (before : contextOf machine = context)
    (implies : ∀ ⦃outcome state⦄, known outcome state →
      whole (outcome.mapError (·.orAt token)) state) :
    Ends context (Run.inCall token work) machine whole := by
  rcases inside with ⟨outcome, state, gives, holds⟩ | ⟨state, last, ends, represents, onward⟩
  · exact .of_gives (gives.inCall before) (implies holds)
  · refine .inr ⟨state, { last with depth := last.depth - 1 }, ?_, ?_, onward⟩
    · unfold Run.inCall
      simp only [ends]
    · subst before
      exact represents.outOfCall

theorem atTopLevel
    (inside : Ends context.atTop work
      { machine with scope := Scope.global, base := machine.depth } known)
    (before : contextOf machine = context) :
    Ends context (Run.atTopLevel work) machine known := by
  rcases inside with ⟨outcome, state, gives, holds⟩ | ⟨state, last, ends, represents, onward⟩
  · exact .of_gives (gives.atTopLevel before) holds
  · refine .inr ⟨state, { last with scope := machine.scope, base := machine.base }, ?_, ?_, onward⟩
    · unfold Run.atTopLevel
      simp only [ends]
    · subst before
      exact represents.outOfTop

/-- How attempted work ends is a value for what comes after it. -/
theorem bind_attempt
    {next : Except Fault α → Run β}
    {whole : Except Fault β → State → Prop}
    (first : Ends context work machine known)
    (success : ∀ ⦃outcome between after⦄, known outcome between →
      Represents context between after → machine.arena ≤ after.arena →
      Ends context (next outcome) after whole) :
    Ends context (Run.attempt work >>= next) machine whole := by
  rcases first with ⟨outcome, between, gives, holds⟩ | ⟨state, last, ends, represents, onward⟩
  · obtain ⟨after, ends, represents, before⟩ := gives.attempt
    exact (success holds represents before).onward (Run.bind_of_ok ends) before
  · refine .inr ⟨state, last, Run.bind_of_error ?_, represents, onward⟩
    unfold Run.attempt
    rw [ends]

end Ends

end Meaning
end Scripting
