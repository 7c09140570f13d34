import Scripting.Evaluation

/-!
# Errands

A run goes on by errands: a node is evaluated or executed, or a function is called.  The
steps of a run can be watched: before an errand is begun, it is asked whether the errand
is allowed on the machine as it is, and if not, the run ends in an alarm.

`Run.Throughout allows bound work machine` says that no errand is begun in the course of
the work that is not allowed: whatever the alarm, the watched run is the run itself.  An
alarm that uses up the bound ends every run, so it cannot pass unseen.
-/

namespace Scripting

variable {α : Type}

/-- What a step of a run is asked to do. -/
inductive Errand where
  | evaluate (id : Option Tree.NodeId)
  | execute (id : Option Tree.NodeId)
  | call (callable : Callable) (arguments : List Value)

/-- Begins the work if the machine is as it should be, and ends in an alarm otherwise. -/
noncomputable def Run.guarded (allowed : Machine → Prop) (alarm : Interrupt) (work : Run α) :
    Run α := by
  classical
  exact fun machine => if allowed machine then work machine else .error alarm machine

theorem Run.guarded_of_allowed
    {allowed : Machine → Prop}
    {machine : Machine}
    (holds : allowed machine)
    (alarm : Interrupt)
    (work : Run α) :
    Run.guarded allowed alarm work machine = work machine := by
  unfold Run.guarded
  exact if_pos holds

namespace Steps

/-- The steps that go on with the given ones. -/
def next (steps : Steps) : Steps where
  rounds := steps.rounds + 1
  evaluate := steps.evaluateNode
  execute := steps.executeNode
  call := steps.callCallable

/-- The steps, each begun only if it is allowed. -/
noncomputable def guarded
    (allows : Errand → Machine → Prop)
    (alarm : Interrupt)
    (steps : Steps) : Steps where
  rounds := steps.rounds
  evaluate id := Run.guarded (allows (.evaluate id)) alarm (steps.evaluate id)
  execute id := Run.guarded (allows (.execute id)) alarm (steps.execute id)
  call callable arguments :=
    Run.guarded (allows (.call callable arguments)) alarm (steps.call callable arguments)

end Steps

namespace Run

/-- A larger bound allows for one errand more on the way down. -/
theorem within_succ (bound : Nat) : within (bound + 1) = (within bound).next := by
  have evaluating : evaluateWithin (bound + 1) = (within bound).evaluateNode := by
    funext id machine
    simp only [evaluateWithin, atLevel_eq, within]
  have executing : executeWithin (bound + 1) = (within bound).executeNode := by
    funext id machine
    simp only [executeWithin, atLevel_eq, within]
  have calling : callWithin (bound + 1) = (within bound).callCallable := by
    funext callable arguments machine
    simp only [callWithin, atLevel_eq, within]
  rw [within, evaluating, executing, calling]
  rfl

/-- The steps within a bound, with every errand watched. -/
noncomputable def watched
    (allows : Errand → Machine → Prop)
    (alarm : Interrupt) : (bound : Nat) → Steps
  | 0 => (within 0).guarded allows alarm
  | bound + 1 => (watched allows alarm bound).next.guarded allows alarm

/-- Every errand that is begun in the course of the work is allowed on the machine on which
it is begun. -/
def Throughout
    (allows : Errand → Machine → Prop)
    (bound : Nat)
    (work : Steps → Run α)
    (machine : Machine) : Prop :=
  ∀ alarm, work (watched allows alarm bound) machine = work (within bound) machine

end Run
end Scripting
