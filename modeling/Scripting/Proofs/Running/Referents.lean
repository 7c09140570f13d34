import Scripting.Proofs.Running.Closed
import Scripting.Proofs.Running.Histories
import Scripting.Proofs.Running.Scopes

/-!
# Every errand has what it refers to

When an errand is begun on a complete store, with arguments that the store has, then so is every
errand that is begun for it (`Moment.Sound.of_begins`).  How this comes about need not be
looked at: if anything else were begun, then steps that wreck the store there, and are no
different otherwise, would leave an incomplete store in the end.

In the same way what holds by a regime holds wherever something is begun.

Main statements: `Regime.fits_of_begins`, `Moment.Sound.of_begins`.
-/

namespace Scripting

/-! ## Regimes -/

theorem Moment.work_eq
    {steps : Steps}
    {bound : Nat}
    (moment : Moment)
    (rounds : steps.rounds = bound) :
    moment.work bound steps = steps.next.outcome moment := by
  subst rounds
  rfl

namespace Regime

variable {regime : Regime} {moment : Moment}

/-- How an errand ends that fits, with steps that keep to the regime. -/
theorem StepsObey.outcome
    {steps watched : Steps}
    (obey : regime.StepsObey steps watched)
    (holds : regime.holds moment.machine)
    (fits : regime.fits moment.errand moment.machine) :
    watched.outcome moment = steps.outcome moment ∧
      regime.Reaches moment.machine (machineAfter (steps.outcome moment)) := by
  obtain ⟨errand, machine⟩ := moment
  cases errand with
  | evaluate id => exact obey.evaluate fits machine (.refl machine) holds
  | execute id => exact obey.execute fits machine (.refl machine) holds
  | call callable arguments => exact obey.call arguments fits machine (.refl machine) holds

/-- What is begun for an errand that fits, fits too. -/
theorem fits_of_begins
    {bound : Nat}
    {links : List Link}
    (holds : regime.holds moment.machine)
    (fits : regime.fits moment.errand moment.machine)
    (begins : (Run.within bound).Begins (moment.work bound) links) :
    ∀ link ∈ links, regime.holds link.moment.machine ∧
      regime.fits link.moment.errand link.moment.machine := by
  let keeps (errand : Errand) (machine : Machine) : Prop :=
    regime.holds machine ∧ regime.fits errand machine
  have obey (alarm : Interrupt) :
      regime.StepsObey (Run.within bound) (Run.watched keeps alarm bound) :=
    obeys_within (fun _ _ held fit => ⟨held, fit⟩) alarm bound
  have unseen (alarm : Interrupt) :
      moment.work bound (Run.watched keeps alarm bound) = moment.work bound (Run.within bound) := by
    have rounds : (Run.watched keeps alarm bound).rounds = bound := (obey alarm).rounds
    rw [moment.work_eq rounds, @Moment.work_eq (Run.within bound) bound moment rfl]
    exact ((obey alarm).next.outcome holds fits).1
  have stopped (alarm : Interrupt) (other : Moment) (bad : ¬ keeps other.errand other.machine) :
      (Run.watched keeps alarm bound).outcome other = .error alarm other.machine := by
    cases bound <;> exact Steps.outcome_guarded_of_not_allowed alarm _ bad
  have alarmed (alarm : Interrupt) :=
    begins.forall_good_or_alarmed (fun _ good => ((obey alarm).outcome good.1 good.2).1)
      (stopped alarm)
  obtain good | ⟨link, -, exhausted⟩ := alarmed .exhausted
  · exact good
  obtain good | ⟨other, -, failed⟩ := alarmed (.fault default)
  · exact good
  rw [unseen] at exhausted failed
  cases exhausted.symm.trans failed

end Regime

/-- What holds of the machines of sessions: their functions have been declared by what has been
read, or are the standard ones, and their frames are nested. -/
def Regime.nested : Regime :=
  .both .standard .scopes

/-! ## Values of errands -/

/-- The value that a function gives back. -/
def Flow.value? : Flow → Option Value
  | .normal => none
  | .returning value => some value

/-- The value in the answer to an errand. -/
def Errand.value? : (errand : Errand) → errand.Result → Option Value
  | .evaluate _, value => some value
  | .execute _, flow => flow.value?
  | .call _ _, value => some value

namespace Moment

/-- Nothing in the store or among the arguments refers to what is not in the store. -/
structure Complete (moment : Moment) : Prop where
  store : moment.machine.store.Complete
  arguments : ∀ callable arguments, moment.errand = .call callable arguments →
    ∀ value ∈ arguments, moment.machine.store.Has value

/-- The errand may be begun on the machine, and has what it refers to. -/
structure Sound (moment : Moment) : Prop where
  holds : Regime.nested.holds moment.machine
  fits : Regime.nested.fits moment.errand moment.machine
  complete : moment.Complete

theorem Sound.isFit {moment : Moment} (sound : moment.Sound) : moment.Fits where
  standard := sound.holds.1
  fits := by
    have both := sound.fits
    obtain ⟨errand, machine⟩ := moment
    cases errand <;> exact both.1

end Moment

/-- Whatever the errand is, the store it leaves is complete and retains what was there, and it
has the value of the answer. -/
theorem Steps.Enclosing.outcome
    {steps : Steps}
    (enclosing : steps.Enclosing)
    {moment : Moment}
    (complete : moment.Complete) :
    (machineAfter (steps.outcome moment)).store.Holds moment.machine.store ∧
      ∀ answer later value, steps.outcome moment = .ok answer later →
        moment.errand.value? answer = some value → later.store.Has value := by
  have holds : moment.machine.store.Holds moment.machine.store := ⟨complete.store, .refl _⟩
  obtain ⟨errand, machine⟩ := moment
  cases errand with
  | evaluate id =>
      have encloses := @Enclosing.evaluate steps enclosing machine.store id
      refine ⟨encloses.holds_machineAfter holds, fun answer later value ends given => ?_⟩
      obtain rfl := Option.some.inj given
      exact encloses.shown_of_ok holds ends
  | execute id =>
      have encloses := @Enclosing.execute steps enclosing machine.store id
      refine ⟨encloses.holds_machineAfter holds, fun flow later value ends given => ?_⟩
      have shown := encloses.shown_of_ok holds ends
      cases flow with
      | normal => cases given
      | returning _ =>
          obtain rfl := Option.some.inj given
          exact shown
  | call callable arguments =>
      have encloses := enclosing.call callable (complete.arguments callable arguments rfl)
      refine ⟨encloses.holds_machineAfter holds, fun answer later value ends given => ?_⟩
      obtain rfl := Option.some.inj given
      exact encloses.shown_of_ok holds ends

/-! ## What is begun -/

/-- The machine with an array whose element refers to what is not there. -/
def Machine.wrecked (machine : Machine) : Machine :=
  { machine with store := { machine.store with arrays := #[#[.array 1]] } }

theorem Machine.not_complete_wrecked (machine : Machine) : ¬ machine.wrecked.store.Complete := by
  intro complete
  have inside : 1 < 1 := complete.elements 0 (.array 1) (by simp [wrecked, Store.elements])
  exact Nat.lt_irrefl 1 inside

namespace Steps

/-- Work that wrecks a machine on which it should not have been begun. -/
noncomputable def wreckedUnless {α : Type} (allowed : Machine → Prop) (work : Run α) : Run α := by
  classical
  exact fun machine => if allowed machine then work machine else .error .exhausted machine.wrecked

/-- The steps, which wreck the machine when an errand is begun that refers to what is not
there. -/
noncomputable def wrecking (steps : Steps) : Steps where
  rounds := steps.rounds
  evaluate id := wreckedUnless (fun machine => Moment.Complete ⟨.evaluate id, machine⟩)
    (steps.evaluate id)
  execute id := wreckedUnless (fun machine => Moment.Complete ⟨.execute id, machine⟩)
    (steps.execute id)
  call callable arguments :=
    wreckedUnless (fun machine => Moment.Complete ⟨.call callable arguments, machine⟩)
      (steps.call callable arguments)

variable {steps : Steps} {moment : Moment}

theorem outcome_wrecking_of_complete (steps : Steps) (complete : moment.Complete) :
    steps.wrecking.outcome moment = steps.outcome moment := by
  obtain ⟨errand, machine⟩ := moment
  cases errand <;> exact if_pos complete

theorem outcome_wrecking_of_not_complete (steps : Steps) (incomplete : ¬ moment.Complete) :
    steps.wrecking.outcome moment = .error .exhausted moment.machine.wrecked := by
  obtain ⟨errand, machine⟩ := moment
  cases errand <;> exact if_neg incomplete

/-- The difference is not seen by work with complete stores. -/
theorem Enclosing.wrecking (enclosing : steps.Enclosing) : steps.wrecking.Enclosing where
  evaluate id machine holds := by
    have complete : Moment.Complete ⟨.evaluate id, machine⟩ := ⟨holds.complete, nofun⟩
    have same : steps.wrecking.evaluate id machine = steps.evaluate id machine := if_pos complete
    rw [same]
    exact enclosing.evaluate id machine holds
  execute id machine holds := by
    have complete : Moment.Complete ⟨.execute id, machine⟩ := ⟨holds.complete, nofun⟩
    have same : steps.wrecking.execute id machine = steps.execute id machine := if_pos complete
    rw [same]
    exact enclosing.execute id machine holds
  call callable arguments has machine holds := by
    have complete : Moment.Complete ⟨.call callable arguments, machine⟩ := by
      refine ⟨holds.complete, ?_⟩
      rintro _ _ ⟨⟩ value member
      exact (has value member).mono holds.retains
    have same : steps.wrecking.call callable arguments machine =
        steps.call callable arguments machine := if_pos complete
    rw [same]
    exact enclosing.call callable has machine holds

end Steps

/-- What is begun for an errand has what it refers to, if the errand has. -/
theorem Moment.Complete.of_begins
    {moment : Moment}
    (complete : moment.Complete)
    {bound : Nat}
    {links : List Link}
    (begins : (Run.within bound).Begins (moment.work bound) links)
    (backs : ∀ link ∈ links, ∀ later, (link.back later).store = later.store) :
    ∀ link ∈ links, link.moment.Complete := by
  have enclosing := (Steps.Enclosing.within bound).wrecking
  have left := (enclosing.next.outcome complete).1.complete
  have alarmed := begins.forall_good_or_alarmed
    (fun _ good => (Run.within bound).outcome_wrecking_of_complete good)
    fun _ bad => (Run.within bound).outcome_wrecking_of_not_complete bad
  obtain good | ⟨link, member, ends⟩ := alarmed
  · exact good
  · have rounds : (Run.within bound).wrecking.rounds = bound := rfl
    rw [← moment.work_eq rounds, ends, machineAfter, backs link member] at left
    exact absurd left link.moment.machine.not_complete_wrecked

/-- What is begun for an errand is sound, if the errand is. -/
theorem Moment.Sound.of_begins
    {moment : Moment}
    (sound : moment.Sound)
    {bound : Nat}
    {links : List Link}
    (begins : (Run.within bound).Begins (moment.work bound) links)
    (backs : ∀ link ∈ links, ∀ later, (link.back later).store = later.store) :
    ∀ link ∈ links, link.moment.Sound := by
  intro link member
  obtain ⟨holds, fits⟩ := Regime.fits_of_begins sound.holds sound.fits begins link member
  exact ⟨holds, fits, sound.complete.of_begins begins backs link member⟩

end Scripting
