import Scripting.Proofs.Running.Errands

/-!
# The errands of a run, one after the other

The work for an errand asks the steps for one errand after the other, and what it does
depends on the steps through their answers alone.  `Steps.Begins` says which errands some
work begins, in their order: an answer is gone on with, and an interrupt of an errand is an
interrupt of the work.

The errands that are under way at a moment of a run lie on top of each other (`Point`), each
with the bound that is left to it.  A `Run.History` lists all points of a run in the order
in which it comes to them.

Main statements: `Steps.Begins.ending_eq`, `Steps.Begins.ending_of_interrupt`.
-/

namespace Scripting

variable {α : Type}

/-- How work ends. -/
abbrev Ending (α : Type) := EStateM.Result Interrupt Machine α

/-- What an errand comes to. -/
@[reducible] def Errand.Result : Errand → Type
  | .evaluate _ => Value
  | .execute _ => Flow
  | .call _ _ => Value

/-- An errand, and the machine on which it is begun. -/
structure Moment where
  errand : Errand
  machine : Machine

namespace Steps

/-- The work of the steps for an errand. -/
def run (steps : Steps) : (errand : Errand) → Run errand.Result
  | .evaluate id => steps.evaluate id
  | .execute id => steps.execute id
  | .call callable arguments => steps.call callable arguments

/-- How an errand ends that is left to the steps. -/
def outcome (steps : Steps) (moment : Moment) : Ending moment.errand.Result :=
  steps.run moment.errand moment.machine

section Guarded

variable
  {allows : Errand → Machine → Prop}
  (alarm : Interrupt)
  (steps : Steps)
  {moment : Moment}

theorem outcome_guarded_of_allowed (allowed : allows moment.errand moment.machine) :
    (steps.guarded allows alarm).outcome moment = steps.outcome moment := by
  obtain ⟨errand, machine⟩ := moment
  cases errand <;> exact if_pos allowed

/-- What is not allowed ends in an alarm. -/
theorem outcome_guarded_of_not_allowed (forbidden : ¬ allows moment.errand moment.machine) :
    (steps.guarded allows alarm).outcome moment = .error alarm moment.machine := by
  obtain ⟨errand, machine⟩ := moment
  cases errand <;> exact if_neg forbidden

end Guarded

/-- The steps, which end in an alarm when they are left the errand. -/
noncomputable def stoppedAt (steps : Steps) (moment : Moment) (alarm : Interrupt) : Steps :=
  steps.guarded (fun errand machine => Moment.mk errand machine ≠ moment) alarm

theorem outcome_stoppedAt_of_ne
    (steps : Steps)
    (alarm : Interrupt)
    {moment stop : Moment}
    (differs : moment ≠ stop) :
    (steps.stoppedAt stop alarm).outcome moment = steps.outcome moment := by
  unfold stoppedAt
  exact outcome_guarded_of_allowed alarm steps differs

theorem outcome_stoppedAt (steps : Steps) (alarm : Interrupt) (moment : Moment) :
    (steps.stoppedAt moment alarm).outcome moment = .error alarm moment.machine := by
  unfold stoppedAt
  exact outcome_guarded_of_not_allowed alarm steps fun differs => differs rfl

end Steps

/-- How an errand ends that goes on with the steps, in which a loop goes round no more often
than it is said. -/
def Moment.work (moment : Moment) (rounds : Nat) (steps : Steps) :
    Ending moment.errand.Result :=
  { steps with rounds := rounds }.next.outcome moment

theorem Run.outcome_within_succ (bound : Nat) (moment : Moment) :
    (within (bound + 1)).outcome moment = moment.work bound (within bound) := by
  rw [within_succ]
  rfl

/-! ## What work begins -/

/-- The same interrupt with a fault told in another way. -/
def Interrupt.told (tell : Fault → Fault) : Interrupt → Interrupt
  | .fault reason => .fault (tell reason)
  | .exhausted => .exhausted

/-- An errand that some work begins, how the work tells a fault of the errand, and to which
machine it goes back when the errand has ended. -/
structure Link where
  moment : Moment
  tell : Fault → Fault
  back : Machine → Machine

namespace Link

variable (link : Link)

/-- How work ends that goes on after an errand which ends so. -/
def resume (next : link.moment.errand.Result → Machine → Ending α) :
    Ending link.moment.errand.Result → Ending α
  | .ok answer later => next answer later
  | .error interrupt later => .error (interrupt.told link.tell) (link.back later)

/-- Whatever the steps are, the work first asks them for the errand, and then goes on with
the answer. -/
def Opens
    (work : Steps → Ending α)
    (next : link.moment.errand.Result → Machine → Steps → Ending α) : Prop :=
  ∀ steps, work steps =
    link.resume (fun answer later => next answer later steps) (steps.outcome link.moment)

end Link

/-- With these steps, the work begins these errands and no others, in this order. -/
inductive Steps.Begins (steps : Steps) : (work : Steps → Ending α) → List Link → Prop
  | nothing (ending : Ending α) : Begins steps (fun _ => ending) []
  | interrupted {work : Steps → Ending α} {link : Link}
      {next : link.moment.errand.Result → Machine → Steps → Ending α}
      {interrupt : Interrupt} {later : Machine} :
      link.Opens work next → steps.outcome link.moment = .error interrupt later →
        Begins steps work [link]
  | answered {work : Steps → Ending α} {link : Link}
      {next : link.moment.errand.Result → Machine → Steps → Ending α}
      {answer : link.moment.errand.Result} {later : Machine} {links : List Link} :
      link.Opens work next → steps.outcome link.moment = .ok answer later →
        Begins steps (next answer later) links → Begins steps work (link :: links)

namespace Steps.Begins

variable {steps other : Steps} {work : Steps → Ending α}

/-- Work ends in the same way when the errands do that it begins. -/
theorem ending_eq
    {links : List Link}
    (begins : steps.Begins work links)
    (same : ∀ link ∈ links, other.outcome link.moment = steps.outcome link.moment) :
    work other = work steps := by
  induction begins with
  | nothing ending => rfl
  | interrupted opens ends =>
      rw [opens, opens, same _ (List.mem_singleton_self _), ends]
      rfl
  | answered opens ends _ inductionHypothesis =>
      obtain ⟨first, others⟩ := List.forall_mem_cons.mp same
      rw [opens, opens, first, ends]
      exact inductionHypothesis others

/-- Work ends with the first of its errands that is interrupted. -/
theorem ending_of_interrupt
    {before after : List Link}
    {link : Link}
    {interrupt : Interrupt}
    {later : Machine}
    (begins : steps.Begins work (before ++ link :: after))
    (same : ∀ link ∈ before, other.outcome link.moment = steps.outcome link.moment)
    (interrupted : other.outcome link.moment = .error interrupt later) :
    work other = .error (interrupt.told link.tell) (link.back later) := by
  induction before generalizing work with
  | nil =>
      cases begins with
      | interrupted opens _ | answered opens _ _ =>
          rw [opens, interrupted]
          rfl
  | cons first rest inductionHypothesis =>
      obtain ⟨sameFirst, sameRest⟩ := List.forall_mem_cons.mp same
      generalize whole : (first :: rest) ++ link :: after = links at begins
      cases begins with
      | nothing => cases whole
      | interrupted => simp at whole
      | answered opens ends goesOn =>
          obtain ⟨rfl, rfl⟩ := List.cons.inj whole
          rw [opens, sameFirst, ends]
          exact inductionHypothesis goesOn sameRest

/-- With other steps, which do the same for every good moment and end in an alarm otherwise, the
work ends in the alarm unless it begins at good moments only. -/
theorem forall_good_or_alarmed
    {links : List Link}
    (begins : steps.Begins work links)
    {good : Moment → Prop}
    {alarm : Interrupt}
    {spoiled : Moment → Machine}
    (same : ∀ moment, good moment → other.outcome moment = steps.outcome moment)
    (stops : ∀ moment, ¬ good moment → other.outcome moment = .error alarm (spoiled moment)) :
    (∀ link ∈ links, good link.moment) ∨
      ∃ link ∈ links,
        work other = .error (alarm.told link.tell) (link.back (spoiled link.moment)) := by
  classical
  cases first : links.find? fun link => !decide (good link.moment) with
  | none =>
      refine .inl fun link member => ?_
      simpa using List.find?_eq_none.mp first link member
  | some link =>
      obtain ⟨isBad, before, after, rfl, earlier⟩ := List.find?_eq_some_iff_append.mp first
      simp only [Bool.not_eq_true', decide_eq_false_iff_not] at isBad
      refine .inr
        ⟨link, by simp, begins.ending_of_interrupt (fun other member => ?_) (stops _ isBad)⟩
      exact same _ (by simpa using earlier other member)

/-- An alarm at an errand that is begun is an alarm of the work, so that it makes a
difference. -/
theorem exists_alarm
    {links : List Link}
    (begins : steps.Begins work links)
    {link : Link}
    (member : link ∈ links) :
    ∃ alarm, work (steps.stoppedAt link.moment alarm) ≠ work steps := by
  classical
  obtain ⟨first, isFirst⟩ : ∃ first, links.find? (·.moment = link.moment) = some first := by
    rw [← Option.isSome_iff_exists, List.find?_isSome]
    exact ⟨link, member, by simp⟩
  obtain ⟨same, before, after, whole, earlier⟩ := List.find?_eq_some_iff_append.mp isFirst
  simp only [decide_eq_true_eq, Bool.not_eq_true', decide_eq_false_iff_not] at same earlier
  have seen (alarm : Interrupt) : work (steps.stoppedAt link.moment alarm) =
      .error (alarm.told first.tell) (first.back first.moment.machine) := by
    rw [whole] at begins
    refine begins.ending_of_interrupt (fun other member => ?_) ?_
    · exact steps.outcome_stoppedAt_of_ne alarm (earlier other member)
    · rw [← same, outcome_stoppedAt]
  refine Classical.byContradiction fun indifferent => ?_
  have unseen (alarm : Interrupt) : work (steps.stoppedAt link.moment alarm) = work steps :=
    Classical.byContradiction fun differs => indifferent ⟨alarm, differs⟩
  have exhausted := (seen .exhausted).symm.trans (unseen .exhausted)
  have failed := (seen (.fault default)).symm.trans (unseen (.fault default))
  cases exhausted.trans failed.symm

/-- What work begins is settled by the work, but for what it begins once more. -/
theorem exists_same_moment
    {links others : List Link}
    (begins : steps.Begins work links)
    (alsoBegins : steps.Begins work others)
    {link : Link}
    (member : link ∈ links) :
    ∃ other ∈ others, other.moment = link.moment := by
  refine Classical.byContradiction fun absent => ?_
  obtain ⟨alarm, differs⟩ := begins.exists_alarm member
  exact differs (alsoBegins.ending_eq fun other member =>
    steps.outcome_stoppedAt_of_ne alarm fun same => absent ⟨other, member, same⟩)

/-- What is begun first is what interrupts the work, whatever else would. -/
theorem first_eq
    {first : Link}
    {others : List Link}
    {moment : Moment}
    (begins : steps.Begins work (first :: others))
    (interrupts : ∀ steps later, steps.outcome moment = .error .exhausted later →
      ∃ last, work steps = .error .exhausted last) :
    first.moment = moment := by
  refine Classical.byContradiction fun differ => ?_
  let alarmed : Steps := (steps.stoppedAt moment .exhausted).stoppedAt first.moment (.fault default)
  have here : alarmed.outcome first.moment = .error (.fault default) first.moment.machine :=
    Steps.outcome_stoppedAt _ _ _
  have there : alarmed.outcome moment = .error .exhausted moment.machine := by
    rw [Steps.outcome_stoppedAt_of_ne _ _ (Ne.symm differ), Steps.outcome_stoppedAt]
  obtain ⟨last, exhausted⟩ := interrupts alarmed _ there
  cases begins with
  | interrupted opens _ | answered opens _ _ =>
      rw [opens, here] at exhausted
      cases exhausted

/-- Work that begins something does not end in the same way with all steps. -/
theorem false_of_const
    {ending : Ending α}
    {links : List Link}
    (begins : steps.Begins (fun _ => ending) links)
    {link : Link}
    (member : link ∈ links) :
    False := by
  obtain ⟨_, differs⟩ := begins.exists_alarm member
  exact differs rfl

end Steps.Begins

/-! ## What is under way -/

/-- An errand that is under way, with the bound that is left to it. -/
structure Activity extends Moment where
  bound : Nat

namespace Activity

/-- How the errand ends. -/
def outcome (activity : Activity) : Ending activity.errand.Result :=
  (Run.within activity.bound).outcome activity.toMoment

/-- The errands that are begun for the one that is under way. -/
def Begins (activity : Activity) (links : List Link) : Prop :=
  match activity.bound with
  | 0 => links = []
  | bound + 1 => (Run.within bound).Begins (activity.work bound) links

end Activity

/-- Everything that is under way at a moment of a run, the innermost errand first. -/
abbrev Point := List Activity

namespace Run

/-- The points that a run comes to in the course of an errand. -/
def Unfolds : (bound : Nat) → (around : Point) → Moment → (points : List Point) → Prop
  | 0, around, moment, points => points = [⟨moment, 0⟩ :: around]
  | bound + 1, around, moment, points =>
      let here : Point := ⟨moment, bound + 1⟩ :: around
      ∃ links part, Activity.Begins ⟨moment, bound + 1⟩ links ∧
        (∀ link ∈ links, Unfolds bound here link.moment (part link)) ∧
        points = here :: links.flatMap part

/-- The points that a run comes to, from its beginning to its end. -/
def History
    (bound : Nat)
    (work : Steps → Run α)
    (machine : Machine)
    (points : List Point) : Prop :=
  ∃ links part, (within bound).Begins (fun steps => work steps machine) links ∧
    (∀ link ∈ links, Unfolds bound [] link.moment (part link)) ∧
    points = links.flatMap part

end Run
end Scripting
