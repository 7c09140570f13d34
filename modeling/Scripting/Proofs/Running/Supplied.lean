import Scripting.Proofs.Running.Histories

/-!
# Arguments of built-in functions

A built-in function looks up its arguments by their positions.  `Builtin.answerFrom` does so
one by one, and what it does where there is no argument is left open.  A call has counted the
arguments before, so that the standard built-in functions find every argument that they look
up.

Main statements: `Builtin.Supplied.answerFrom_eq`, `Point.Linked.supplied`.
-/

namespace Scripting
namespace Builtin

/-- The argument at a position, or something else if there is none. -/
def argumentAt (missing : Run Value) (arguments : List Value) (position : Nat) : Run Value :=
  match arguments[position]? with
  | some value => pure value
  | none => missing

/-- What a call gives that looks up its arguments one by one. -/
def answerFrom (steps : Steps) (action : Action) (argument : Nat → Run Value) : Run Answer := do
  match action with
  | .clock => clock
  | .variable => systemVariable (← argument 0)
  | .size => size (← argument 0)
  | .trim => return trim (← argument 0)
  | .split => split (← argument 0) (← argument 1)
  | .push => push (← argument 0) (← argument 1)
  | .text => return .ok (.text (← Run.textOf (← argument 0)))
  | .typeName => return .ok (.text (← argument 0).typeName)
  | .readFile => readFile (← argument 0)
  | .writeFile => writeFile (← argument 0) (← argument 1)
  | .runFile => runFile steps (← argument 0)
  | .refuse => return .error (← Run.textOf (← argument 0))
  | .apply => apply steps (← argument 0) (← argument 1)

/-- The arguments are those that a call of the built-in function is given. -/
structure Supplied (given : Builtin) (arguments : List Value) : Prop where
  isStandard : given ∈ standard
  arity : arguments.length = given.arity

/-- A standard built-in function that has as many arguments as it takes looks up no
others. -/
theorem Supplied.answerFrom_eq
    {given : Builtin}
    {arguments : List Value}
    (supplied : given.Supplied arguments)
    (steps : Steps)
    (missing : Run Value) :
    answerFrom steps given.action (argumentAt missing arguments) =
      answer steps given.action arguments := by
  obtain ⟨isStandard, arity⟩ := supplied
  simp only [standard, List.mem_cons, List.not_mem_nil, or_false] at isStandard
  obtain rfl | rfl | rfl | rfl | rfl | rfl | rfl | rfl | rfl | rfl | rfl := isStandard
  case inl => rfl
  all_goals
    first
      | obtain ⟨first, rfl⟩ := List.length_eq_one_iff.mp arity
        rfl
      | obtain ⟨first, second, rfl⟩ := List.length_eq_two.mp arity
        rfl

end Builtin

/-- Every call that is under way is that of a function of its machine, with as many arguments
as it takes. -/
theorem Point.Linked.supplied
    {first : Moment}
    (isRoot : ∃ root, first.errand = .execute root)
    {given : Builtin}
    {arguments : List Value}
    {machine : Machine}
    {bound : Nat}
    {around : Point}
    (linked : Point.Linked first (⟨⟨.call (.builtin given) arguments, machine⟩, bound⟩ :: around)) :
    given.Supplied arguments := by
  cases linked with
  | first same =>
      obtain ⟨root, isRoot⟩ := isRoot
      rw [← same] at isRoot
      cases isRoot
  | @inner _ outer _ links link linked bounds starts member same =>
      have leads := starts.leads link member
      obtain ⟨⟨outerErrand, outerMachine⟩, outerBound⟩ := outer
      obtain ⟨moment, tell, back⟩ := link
      dsimp only at same leads
      subst same
      cases leads with
      | call found kind becomes called arity room =>
          obtain ⟨place, stored⟩ := called
          exact ⟨becomes.holds.builtins place given stored, arity⟩

end Scripting
