import Scripting.Proofs.Running.Histories

/-!
# Larger bounds

The bound on a run is there to make every run end.  What has ended without using it up ends
in the same way within every larger bound, so a run that does not is one that goes on
forever.

Main statements: `Moment.Fits.outcome_of_le`, `Machine.Standard.programWith_of_le`.
-/

namespace Scripting

open Tree (Node)

variable {α : Type}

/-- The bound has not been used up. -/
def Concludes (ending : Ending α) : Prop :=
  ∀ later, ending ≠ .error .exhausted later

/-- An interrupt of an errand that is begun is an interrupt of the work. -/
theorem Steps.Begins.concludes
    {steps : Steps}
    {work : Steps → Ending α}
    {links : List Link}
    (begins : steps.Begins work links)
    (concludes : Concludes (work steps))
    {link : Link}
    (member : link ∈ links) :
    Concludes (steps.outcome link.moment) := by
  intro later ended
  obtain ⟨before, after, rfl⟩ := List.append_of_mem member
  exact concludes _ (begins.ending_of_interrupt (fun _ _ => rfl) ended)

/-! ## Loops -/

namespace Steps

/-- A loop that has ended does not go round more often when it may. -/
theorem executeLoop_of_le
    {steps : Steps}
    {node : Node}
    {machine : Machine}
    {rounds more : Nat}
    (order : rounds ≤ more)
    (concludes : Concludes (steps.executeLoop node rounds machine)) :
    steps.executeLoop node more machine = steps.executeLoop node rounds machine := by
  induction rounds generalizing machine more with
  | zero => exact absurd rfl (concludes machine)
  | succ rounds inductionHypothesis =>
      obtain ⟨more, rfl⟩ := Nat.exists_eq_add_one.mpr (Nat.zero_lt_of_lt order)
      unfold executeLoop at concludes ⊢
      cases first : steps.evaluate (node.child 0) machine with
      | error interrupt between => rw [Run.bind_of_error first, Run.bind_of_error first]
      | ok condition between =>
          rw [Run.bind_of_ok first] at concludes
          rw [Run.bind_of_ok first, Run.bind_of_ok first]
          cases truthy : condition.isTruthy with
          | false => simp only [Bool.false_eq_true, if_false]
          | true =>
              simp only [truthy, if_true] at concludes ⊢
              cases second : steps.execute (node.child 1) between with
              | error interrupt last => rw [Run.bind_of_error second, Run.bind_of_error second]
              | ok flow last =>
                  rw [Run.bind_of_ok second] at concludes
                  rw [Run.bind_of_ok second, Run.bind_of_ok second]
                  cases flow with
                  | returning value => rfl
                  | normal => exact inductionHypothesis (Nat.le_of_succ_le_succ order) concludes

/-- A loop asks the steps for its condition and its body, and for nothing else. -/
theorem executeLoop_with_rounds (steps : Steps) (other : Nat) (node : Node) (rounds : Nat) :
    executeLoop { steps with rounds := other } node rounds = steps.executeLoop node rounds := by
  induction rounds with
  | zero => rfl
  | succ rounds inductionHypothesis =>
      unfold executeLoop
      rw [inductionHypothesis]

end Steps

theorem Moment.work_loop
    {id : Option Tree.NodeId}
    {machine : Machine}
    {node : Node}
    (found : machine.arena.node? id = some node)
    (kind : node.kind = .loop)
    (rounds : Nat)
    (steps : Steps) :
    Moment.work ⟨.execute id, machine⟩ rounds steps = steps.executeLoop node rounds machine := by
  change { steps with rounds := rounds }.executeNode id machine = _
  unfold Steps.executeNode
  rw [Run.bind_of_ok (Run.node?_of_eq found)]
  simp only [kind]
  rw [steps.executeLoop_with_rounds]

/-! ## Errands and programs -/

namespace Moment.Fits

variable {moment : Moment} {bound larger : Nat}

/-- With steps that end alike, a larger bound makes no difference to what goes on with
them. -/
theorem work_of_le
    (fits : moment.Fits)
    (order : bound ≤ larger)
    (concludes : Concludes (moment.work bound (Run.within bound)))
    (same : ∀ link : Link, link.moment.Fits →
      Concludes ((Run.within bound).outcome link.moment) →
        (Run.within larger).outcome link.moment = (Run.within bound).outcome link.moment) :
    moment.work larger (Run.within larger) = moment.work bound (Run.within bound) := by
  -- What is begun ends alike, however it is said how often a loop goes round.
  have begun (rounds : Steps → Nat) (settled : moment.Loops → ∃ count, rounds = fun _ => count)
      (is : rounds (Run.within bound) = bound) :
      moment.work (rounds (Run.within larger)) (Run.within larger) =
        moment.work bound (Run.within bound) := by
    obtain ⟨-, links, begins, -, each⟩ := (fits.plan rounds settled).exists_begins
      (Run.within bound) fun link leads => leads.fits.becomes bound
    have ends : Concludes (moment.work (rounds (Run.within bound)) (Run.within bound)) := by
      rwa [is]
    refine (begins.ending_eq fun link member => ?_).trans (by rw [is])
    exact same link (each link member).1.fits (begins.concludes ends member)
  by_cases loops : moment.Loops
  · have alike := begun (fun _ => bound) (fun _ => ⟨bound, rfl⟩) rfl
    obtain ⟨errand, machine⟩ := moment
    obtain ⟨id, node, rfl, found, kind⟩ := loops
    rw [← alike] at concludes ⊢
    simp only [Moment.work_loop found kind] at concludes ⊢
    exact Steps.executeLoop_of_le order concludes
  · exact begun Steps.rounds (fun isLoop => absurd isLoop loops) rfl

/-- What has ended within a bound ends in the same way within every larger one. -/
theorem outcome_of_le
    (fits : moment.Fits)
    (order : bound ≤ larger)
    (concludes : Concludes ((Run.within bound).outcome moment)) :
    (Run.within larger).outcome moment = (Run.within bound).outcome moment := by
  induction bound generalizing moment larger with
  | zero =>
      obtain ⟨errand, machine⟩ := moment
      cases errand <;> exact absurd rfl (concludes machine)
  | succ bound inductionHypothesis =>
      obtain ⟨larger, rfl⟩ := Nat.exists_eq_add_one.mpr (Nat.zero_lt_of_lt order)
      have smaller := Nat.le_of_succ_le_succ order
      rw [Run.outcome_within_succ] at concludes ⊢
      rw [Run.outcome_within_succ]
      exact fits.work_of_le smaller concludes fun link isFit ends =>
        inductionHypothesis isFit smaller ends

end Moment.Fits

/-- A program that has ended within a bound ends in the same way within every larger one. -/
theorem Machine.Standard.programWith_of_le
    {machine : Machine}
    (standard : machine.Standard)
    (source : String)
    {bound larger : Nat}
    (order : bound ≤ larger)
    (concludes : Concludes (Run.programWith (Run.within bound) source machine)) :
    Run.programWith (Run.within larger) source machine =
      Run.programWith (Run.within bound) source machine := by
  have begins := Run.begins_programWith (Run.within bound) source machine
  refine begins.ending_eq (List.forall_mem_singleton.mpr ?_)
  exact (standard.fits_rootOf source).outcome_of_le order
    (begins.concludes concludes (List.mem_singleton_self _))

end Scripting
