import Scripting.Proofs.Running.Histories
import Scripting.Proofs.Running.TopLevel
import Scripting.Proofs.Sessions.Standard

/-!
# Where a `return` goes

At every point of the run of a program, however deep it is in blocks, calls and included
files, a `return` is a fault if no function has been called since the innermost program was
begun.  Otherwise its value goes through the statements around it, each of which ends with
it, to the innermost call of a function (`Point.Passes`).

Main statement: `Session.returns_reach_their_call`.
-/

namespace Scripting

open Tree (Arena Node)

/-- How many calls of declared functions are under way since the innermost program was
begun.  The only built-in function that anything is begun for runs a program. -/
def Point.calls : Point → Nat
  | [] => 0
  | activity :: around =>
      match activity.errand with
      | .call (.function _) _ => calls around + 1
      | .call (.builtin _) _ => 0
      | .evaluate _ | .execute _ => calls around

/-- The last errand that is begun for the outer one is the inner one. -/
def Activity.EndsWith (outer inner : Activity) : Prop :=
  outer.bound = inner.bound + 1 ∧
    ∃ before link, link.moment = inner.toMoment ∧ outer.Begins (before ++ [link])

/-- The value goes from the inner errand through the statements around it to the innermost
call of a function, and becomes its value. Each of them ends with the one inside it, on the
machine that is left there, but for the scope. -/
inductive Point.Passes (value : Value) (left : Machine) : Activity → Point → Prop
  | statement {inner : Activity} {id : Option Tree.NodeId} {machine : Machine} {bound : Nat}
      {around : Point} :
      Activity.EndsWith ⟨⟨.execute id, machine⟩, bound⟩ inner →
      (Run.within bound).execute id machine =
        .ok (.returning value) { left with scope := machine.scope } →
      Passes value left ⟨⟨.execute id, machine⟩, bound⟩ around →
        Passes value left inner (⟨⟨.execute id, machine⟩, bound⟩ :: around)
  | call {inner : Activity} {declared : Function} {arguments : List Value} {machine : Machine}
      {bound : Nat} {around : Point} :
      Activity.EndsWith ⟨⟨.call (.function declared) arguments, machine⟩, bound⟩ inner →
      (Run.within bound).call (.function declared) arguments machine =
        .ok value { left with scope := machine.scope } →
        Passes value left inner (⟨⟨.call (.function declared) arguments, machine⟩, bound⟩ :: around)

namespace Point.Linked

variable {first : Moment}

/-- As many calls are active as when the innermost program was begun, and those that have
been begun since. -/
theorem depth_eq
    (isRoot : ∃ root, first.errand = .execute root)
    (top : first.machine.depth = first.machine.base)
    {here : Activity}
    {around : Point}
    (linked : Point.Linked first (here :: around)) :
    (∃ given arguments, here.errand = .call (.builtin given) arguments) ∨
      here.machine.depth = here.machine.base + Point.calls (here :: around) := by
  generalize whole : here :: around = point at linked
  induction linked generalizing here around with
  | @first activity same =>
      cases whole
      obtain ⟨root, isRoot⟩ := isRoot
      obtain ⟨⟨errand, machine⟩, bound⟩ := activity
      subst same
      cases isRoot
      exact .inr top
  | @inner inner outer _ links link linked bounds starts member same inductionHypothesis =>
      cases whole
      have leads := starts.leads link member
      have outside := inductionHypothesis rfl
      obtain ⟨⟨errand, machine⟩, bound⟩ := inner
      obtain ⟨⟨outerErrand, outerMachine⟩, outerBound⟩ := outer
      obtain ⟨moment, tell, back⟩ := link
      dsimp only at same leads outside ⊢
      subst same
      -- In all cases but those of a call and of a program the counts are those outside.
      cases leads with
      | operand found becomes _ =>
          obtain ⟨given, arguments, rfl⟩ | outside := outside
          · cases found
          · refine .inr (becomes.isLater.depth.trans (outside.trans ?_))
            rw [← becomes.isLater.base]
            rfl
      | part _ becomes _ | inner _ _ becomes _ | body _ becomes _ =>
          obtain ⟨given, arguments, isBuiltin⟩ | outside := outside
          · cases isBuiltin
          · refine .inr (becomes.isLater.depth.trans (outside.trans ?_))
            exact congrArg (· + _) becomes.isLater.base.symm
      | @call _ _ later _ callable arguments _ _ becomes _ _ _ =>
          obtain ⟨given, arguments, isBuiltin⟩ | outside := outside
          · cases isBuiltin
          · cases callable with
            | builtin given => exact .inl ⟨given, arguments, rfl⟩
            | function declared =>
                refine .inr (congrArg (· + 1) (becomes.isLater.depth.trans (outside.trans ?_)))
                exact congrArg (· + _) becomes.isLater.base.symm
      | program found source runs becomes => exact .inr rfl

/-- The root of a program is executed where there is no function to return from. -/
theorem top_of_root
    (top : first.machine.depth = first.machine.base)
    {id : Option Tree.NodeId}
    {machine : Machine}
    {bound : Nat}
    {around : Point}
    (linked : Point.Linked first (⟨⟨.execute id, machine⟩, bound⟩ :: around))
    (isRoot : ∀ outer ∈ around.head?, ∃ given arguments,
      outer.errand = .call (.builtin given) arguments) :
    machine.depth = machine.base := by
  cases linked with
  | first same =>
      subst same
      exact top
  | @inner _ outer _ links link linked bounds starts member same =>
      obtain ⟨given, arguments, isBuiltin⟩ := isRoot outer rfl
      have leads := starts.leads link member
      obtain ⟨⟨outerErrand, outerMachine⟩, outerBound⟩ := outer
      obtain ⟨moment, tell, back⟩ := link
      dsimp only at same leads isBuiltin
      subst same isBuiltin
      cases leads with
      | program => rfl

/-- What a statement gives back passes to the innermost call of a function. -/
theorem passes
    (top : first.machine.depth = first.machine.base)
    {id : Option Tree.NodeId}
    {machine : Machine}
    {bound : Nat}
    {around : Point}
    (linked : Point.Linked first (⟨⟨.execute id, machine⟩, bound⟩ :: around))
    (inFunction : machine.depth ≠ machine.base)
    {value : Value}
    {left : Machine}
    (ends : (Run.within bound).execute id machine =
      .ok (.returning value) { left with scope := machine.scope }) :
    Point.Passes value left ⟨⟨.execute id, machine⟩, bound⟩ around := by
  induction around generalizing id machine bound with
  | nil =>
      have atTop := linked.top_of_root top fun _ none => nomatch none
      exact absurd atTop inFunction
  | cons outer rest inductionHypothesis =>
      cases linked with
      | @inner _ _ _ links link linked bounds starts member same =>
          have leads := starts.leads link member
          have passes := starts.passes link member
          have begins := starts.begins
          obtain ⟨⟨outerErrand, outerMachine⟩, outerBound⟩ := outer
          obtain ⟨moment, tell, back⟩ := link
          dsimp only at same leads passes bounds
          subst same bounds
          obtain ⟨⟨before, whole⟩, result, gives, outcome⟩ :=
            passes (.returning value) value _ ends rfl inFunction
          have endsWith : Activity.EndsWith ⟨⟨outerErrand, outerMachine⟩, bound + 1⟩
              ⟨⟨.execute id, machine⟩, bound⟩ :=
            ⟨rfl, before, _, rfl, whole ▸ begins⟩
          cases leads with
          | part found becomes _ =>
              cases gives
              have counts := becomes.isLater
              rw [counts.scope] at outcome
              rw [counts.depth, counts.base] at inFunction
              exact .statement endsWith outcome (inductionHypothesis linked inFunction outcome)
          | inner found kind becomes _ =>
              cases gives
              have counts := becomes.isLater
              rw [counts.depth, counts.base] at inFunction
              exact .statement endsWith outcome (inductionHypothesis linked inFunction outcome)
          | body found becomes _ =>
              cases gives
              exact .call endsWith outcome
          | program => exact absurd rfl inFunction

end Point.Linked

/-! ## Statements -/

/-- What becomes of a statement that is executed while the errands around it are under
way. -/
structure Point.Returns
    (id : Option Tree.NodeId)
    (machine : Machine)
    (bound : Nat)
    (around : Point) : Prop where
  /-- The root of a program gives back nothing. -/
  root : (∀ outer ∈ around.head?, ∃ given arguments,
      outer.errand = .call (.builtin given) arguments) →
    ∀ value later, (Run.within bound).execute id machine ≠ .ok (.returning value) later
  /-- Where no function has been called since the innermost program was begun, a `return` is
  a fault, and its expression is not evaluated. -/
  outside : ∀ node, machine.arena.node? id = some node → node.kind = .giveBack → 0 < bound →
    around.calls = 0 → (Run.within bound).execute id machine =
      .error (.fault (Fault.atToken .returnOutsideFunction node.token)) machine
  /-- Where one has been called, its expression is evaluated. -/
  inside : ∀ node, machine.arena.node? id = some node → node.kind = .giveBack → 0 < bound →
    around.calls ≠ 0 → (Run.within bound).execute id machine = (do
      let value ← (Run.within (bound - 1)).evaluate (node.child 0)
      return Flow.returning value) machine
  /-- Without an expression it gives back null. -/
  empty : ∀ node, machine.arena.node? id = some node → node.kind = .giveBack → 1 < bound →
    around.calls ≠ 0 → node.child 0 = none →
      (Run.within bound).execute id machine = .ok (.returning .null) machine
  /-- What the statement gives back becomes the value of the innermost call of a function. -/
  passes : ∀ value left, (Run.within bound).execute id machine = .ok (.returning value) left →
    Passes value left ⟨⟨.execute id, machine⟩, bound⟩ around

namespace Point.Linked

variable {first : Moment}

theorem returns
    (isRoot : ∃ root, first.errand = .execute root)
    (top : first.machine.depth = first.machine.base)
    {id : Option Tree.NodeId}
    {machine : Machine}
    {bound : Nat}
    {around : Point}
    (linked : Point.Linked first (⟨⟨.execute id, machine⟩, bound⟩ :: around)) :
    Point.Returns id machine bound around := by
  have depth : machine.depth = machine.base + around.calls := by
    obtain ⟨given, arguments, isBuiltin⟩ | depth := linked.depth_eq isRoot top
    · cases isBuiltin
    · exact depth
  have settles : ∀ value later, machine.depth = machine.base →
      (Run.within bound).execute id machine ≠ .ok (.returning value) later :=
    fun value later atTop ends => nomatch settles_within bound id machine later _ atTop ends
  have inFunction : around.calls ≠ 0 → machine.depth ≠ machine.base := by omega
  refine ⟨fun isRoot value later => settles value later (linked.top_of_root top isRoot),
    fun node found kind positive none => ?_, fun node found kind positive some => ?_,
    fun node found kind positive some absent => ?_, fun value left ends => ?_⟩
  · obtain ⟨bound, rfl⟩ := Nat.exists_eq_add_one.mpr positive
    rw [Run.execute_giveBack found kind, if_pos (by omega)]
  · obtain ⟨bound, rfl⟩ := Nat.exists_eq_add_one.mpr positive
    rw [Run.execute_giveBack found kind, if_neg (inFunction some)]
    rfl
  · obtain ⟨bound, rfl⟩ := Nat.exists_eq_add_of_lt positive
    rw [show 1 + bound + 1 = bound + 1 + 1 by omega, Run.execute_giveBack found kind,
      if_neg (inFunction some), absent, Run.within_succ]
    rfl
  · have counts := (Course.later.follows_within bound).execute id machine
    rw [ends] at counts
    have scope : left.scope = machine.scope := counts.scope
    have notTop : machine.depth ≠ machine.base := fun atTop => settles value left atTop ends
    exact linked.passes top notTop (by rw [← scope]; exact ends)

end Point.Linked

namespace Session

/-- Where a `return` goes, at every point of the run of a program. The root of the program,
and of every program that it includes, gives back nothing. A `return` is a fault if and only
if no function has been called since the innermost program was begun, and otherwise its value
becomes that of the innermost call of a function, with which all statements around it end. -/
theorem returns_reach_their_call
    {session : Session}
    (reachable : session.Reachable)
    (source : String)
    (bound : Nat) :
    (∃ points, Run.History bound (Run.programWith · source) session.machine points) ∧
      ∀ points, Run.History bound (Run.programWith · source) session.machine points →
        ∀ id machine left around, ⟨⟨.execute id, machine⟩, left⟩ :: around ∈ points →
          Point.Returns id machine left around :=
  ⟨reachable.standard.exists_history source bound, fun _ history _ _ _ _ member =>
    (reachable.standard.linked_history history _ member).returns ⟨_, rfl⟩ rfl⟩

/-- A value goes out of a block in a loop that would not end without it. -/
theorem returns_reach_their_call_of_loop :
    let session := ofSettings .standard (.ofFiles ⟨[]⟩ [])
    let source :=
      "fn f() \x7b while (true) \x7b \x7b return \"x\"; \x7d \x7d \x7d echo f();"
    session.Reachable ∧ (session.run source).1.isClean = true ∧
      (session.run source).2.output = "x\n" ∧
      ∀ bound, ∃ points,
        Run.History bound (Run.programWith · source) session.machine points ∧
        ∀ id machine left around, ⟨⟨.execute id, machine⟩, left⟩ :: around ∈ points →
          Point.Returns id machine left around := by
  intro session source
  have reachable : session.Reachable := .new _ _
  refine ⟨reachable, by decide +kernel, by decide +kernel, fun bound => ?_⟩
  obtain ⟨⟨points, history⟩, returns⟩ := returns_reach_their_call reachable source bound
  exact ⟨points, history, returns points history⟩

end Session
end Scripting
