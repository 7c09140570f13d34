import Scripting.Proofs.Running.Course

/-!
# What a run leaves as it was

However a run ends, the scope, the calls and the settings of its machine are those of
before, its output begins with the output of before, and its arena with the arena of
before.

Main statement: `later_interpret`.
-/

namespace Scripting

/-- The second machine comes after the first one, and no work is under way on it that
was not under way on the first one. -/
structure Machine.Later (machine later : Machine) : Prop where
  scope : later.scope = machine.scope
  depth : later.depth = machine.depth
  base : later.base = machine.base
  limit : later.limit = machine.limit
  libraries : later.libraries = machine.libraries
  sink : later.host.sink = machine.host.sink
  output : ∃ text, later.host.output = machine.host.output ++ text
  arena : machine.arena ≤ later.arena

/-- The course of all runs. -/
def Course.later : Course where
  leads := Machine.Later
  refl machine := ⟨rfl, rfl, rfl, rfl, rfl, rfl, ⟨"", by simp⟩, Tree.Arena.le_refl _⟩
  trans {first second third} before after := by
    obtain ⟨text, output⟩ := before.output
    obtain ⟨more, laterOutput⟩ := after.output
    exact ⟨after.scope.trans before.scope, after.depth.trans before.depth,
      after.base.trans before.base, after.limit.trans before.limit,
      after.libraries.trans before.libraries, after.sink.trans before.sink,
      ⟨text ++ more, by rw [laterOutput, output, String.append_assoc]⟩,
      Tree.Arena.le_trans before.arena after.arena⟩
  reading before := ⟨rfl, rfl, rfl, rfl, rfl, rfl, ⟨"", by simp⟩, before⟩
  storing _ := ⟨rfl, rfl, rfl, rfl, rfl, rfl, ⟨"", by simp⟩, Tree.Arena.le_refl _⟩
  asking {machine host} step := by
    have sink : host.sink = machine.host.sink := by
      cases step <;> rfl
    have output : ∃ text, host.output = machine.host.output ++ text := by
      cases step with
      | write text => exact ⟨text, rfl⟩
      | _ => exact ⟨"", by simp [Host.readClock, Host.wishing]⟩
    exact ⟨rfl, rfl, rfl, rfl, rfl, sink, output, Tree.Arena.le_refl _⟩
  leaving inside :=
    ⟨rfl, inside.depth, inside.base, inside.limit, inside.libraries, inside.sink, inside.output,
      inside.arena⟩
  returning inside :=
    ⟨inside.scope, congrArg (· - 1) inside.depth, inside.base, inside.limit, inside.libraries,
      inside.sink, inside.output, inside.arena⟩
  ending inside :=
    ⟨rfl, inside.depth, rfl, inside.limit, inside.libraries, inside.sink, inside.output,
      inside.arena⟩

/-- However the execution of a program ends, the machine is a later one. -/
theorem later_interpret (root : Tree.NodeId) (machine : Machine) :
    machine.Later (machineAfter (Run.interpret root machine)) :=
  Course.later.follows_interpret root machine

end Scripting
