/-!
# Deep recursion on fresh stacks

A recursive function on deeply nested data can need more stack than one thread
has.  Work given to `onFreshStack` runs on the stack of a new thread, and its
value is awaited; as a function of its argument it is the work itself.

A recursion that counts its levels down passes every level through `atLevel`,
which moves to a fresh stack once every `levelsPerStack` levels.  A count from
`levelsFor` keeps shallow recursions on the stack they start on.
-/

namespace Scripting

/-- The value of `work`, computed on a stack of its own. -/
def onFreshStack {α : Type} (work : Unit → α) : α :=
  (Task.spawn work .dedicated).get

@[simp] theorem onFreshStack_eq {α : Type} (work : Unit → α) :
    onFreshStack work = work () := rfl

/-- How many levels of a recursion share one stack. -/
def levelsPerStack : Nat := 1024

/-- The value of `work`, on a fresh stack when the level is a multiple of
`levelsPerStack`. -/
def atLevel {α : Type} (level : Nat) (work : Unit → α) : α :=
  if level % levelsPerStack = 0 then onFreshStack work else work ()

@[simp] theorem atLevel_eq {α : Type} (level : Nat) (work : Unit → α) :
    atLevel level work = work () := by
  unfold atLevel
  split <;> rfl

/-- A count of levels, at least `needed`, whose first `levelsPerStack - 1` levels
stay on the current stack. -/
def levelsFor (needed : Nat) : Nat :=
  (needed / levelsPerStack + 1) * levelsPerStack + (levelsPerStack - 1)

theorem le_levelsFor (needed : Nat) : needed ≤ levelsFor needed := by
  unfold levelsFor levelsPerStack
  omega

end Scripting
