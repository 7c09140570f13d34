import Scripting.Proofs.Meaning.Statements

/-!
# What comes to an end is computed

If the rules say how a task ends, then every machine that stands for the state ends the
work for the task in the same way, within all bounds that are large enough.

Main statement: `Runs.eventually`.
-/

namespace Scripting
namespace Meaning

/-- The property holds of all bounds that are large enough, one on how deep steps are
nested and one on how often a loop goes round. -/
def Eventually (property : Nat → Nat → Prop) : Prop :=
  ∃ least, ∀ bound rounds, least ≤ bound → least ≤ rounds → property bound rounds

namespace Eventually

variable {first second whole : Nat → Nat → Prop}

theorem of_forall (always : ∀ bound rounds, whole bound rounds) : Eventually whole :=
  ⟨0, fun bound rounds _ _ => always bound rounds⟩

theorem positive : Eventually fun bound _ => 0 < bound :=
  ⟨1, fun _ _ enough _ => enough⟩

theorem and (one : Eventually first) (other : Eventually second) :
    Eventually fun bound rounds => first bound rounds ∧ second bound rounds := by
  obtain ⟨least, holds⟩ := one
  obtain ⟨otherLeast, otherHolds⟩ := other
  refine ⟨max least otherLeast, fun bound rounds enough enoughRounds => ⟨?_, ?_⟩⟩
  · exact holds bound rounds (by omega) (by omega)
  · exact otherHolds bound rounds (by omega) (by omega)

theorem mono
    (eventually : Eventually first)
    (implies : ∀ bound rounds, first bound rounds → whole bound rounds) :
    Eventually whole := by
  obtain ⟨least, holds⟩ := eventually
  exact ⟨least, fun bound rounds enough enoughRounds =>
    implies bound rounds (holds bound rounds enough enoughRounds)⟩

/-- What holds within one bound more if the parts hold within a bound. -/
theorem next
    (eventually : Eventually first)
    (step : ∀ bound rounds, first bound bound → whole (bound + 1) rounds) :
    Eventually whole := by
  obtain ⟨least, holds⟩ := eventually
  refine ⟨least + 1, fun bound rounds enough _ => ?_⟩
  obtain ⟨before, rfl⟩ : ∃ before, bound = before + 1 := ⟨bound - 1, by omega⟩
  exact step before rounds (holds before before (by omega) (by omega))

/-- What holds for one round more if the parts hold. -/
theorem nextRound
    (eventually : Eventually first)
    (step : ∀ bound rounds, first bound rounds → whole bound (rounds + 1)) :
    Eventually whole := by
  obtain ⟨least, holds⟩ := eventually
  refine ⟨least + 1, fun bound rounds enough enoughRounds => ?_⟩
  obtain ⟨before, rfl⟩ : ∃ before, rounds = before + 1 := ⟨rounds - 1, by omega⟩
  exact step bound before (holds bound before (by omega) (by omega))

end Eventually

variable {task : Task} {context : Context} {state later : State}

/-- What the rules say is what machines do within all bounds that are large enough. -/
theorem Runs.eventually
    {outcome : Except Fault task.Result}
    (runs : Runs task context state outcome later) :
    Eventually fun bound rounds =>
      Carries (Run.within bound) rounds task context state outcome later := by
  -- Phrases below a node, bodies and programs take one bound more, rounds one round more,
  -- and the rest happens within the same bounds.
  induction runs with
  | constant => exact Eventually.positive.next fun _ _ _ => .constant
  | mention => exact Eventually.positive.next fun _ _ _ => .mention
  | group _ inner => exact inner.next fun _ _ inner => .group inner
  | array _ all => exact all.next fun _ _ all => .array all
  | arrayFails _ all => exact all.next fun _ _ all => .arrayFails all
  | unary _ operand => exact operand.next fun _ _ operand => .unary operand
  | binary _ _ first second =>
      exact (first.and second).next fun _ _ both => .binary both.1 both.2
  | binaryFails _ first => exact first.next fun _ _ first => .binaryFails first
  | decided _ decided first => exact first.next fun _ _ first => .decided first decided
  | undecided _ undecided _ first second =>
      exact (first.and second).next fun _ _ both => .undecided both.1 undecided both.2
  | logicalFails _ first => exact first.next fun _ _ first => .logicalFails first
  | assigned _ assigned inner => exact inner.next fun _ _ inner => .assigned inner assigned
  | unassigned _ unassigned inner =>
      exact inner.next fun _ _ inner => .unassigned inner unassigned
  | assignmentFails _ inner => exact inner.next fun _ _ inner => .assignmentFails inner
  | called _ _ called _ first others inside =>
      exact (first.and (others.and inside)).next fun _ _ parts =>
        .called parts.1 parts.2.1 called parts.2.2
  | uncalled _ _ uncalled first others =>
      exact (first.and others).next fun _ _ both => .uncalled both.1 both.2 uncalled
  | argumentsFail _ _ first others =>
      exact (first.and others).next fun _ _ both => .argumentsFail both.1 both.2
  | functionFails _ first => exact first.next fun _ _ first => .functionFails first
  | index _ _ first second =>
      exact (first.and second).next fun _ _ both => .index both.1 both.2
  | indexFails _ first => exact first.next fun _ _ first => .indexFails first
  | noValues => exact .of_forall fun _ _ => .noValues
  | moreValues _ _ first rest =>
      exact (first.and rest).mono fun _ _ both => .moreValues both.1 both.2
  | valueFails _ first => exact first.mono fun _ _ first => .valueFails first
  | declared => exact Eventually.positive.next fun _ _ positive => .declared positive
  | initialized _ initializer =>
      exact initializer.next fun _ _ initializer => .initialized initializer
  | initializerFails _ initializer =>
      exact initializer.next fun _ _ initializer => .initializerFails initializer
  | echoed _ written inner => exact inner.next fun _ _ inner => .echoed inner written
  | unwritten _ unwritten inner => exact inner.next fun _ _ inner => .unwritten inner unwritten
  | echoFails _ inner => exact inner.next fun _ _ inner => .echoFails inner
  | discarded _ inner => exact inner.next fun _ _ inner => .discarded inner
  | block _ inside => exact inside.next fun _ _ inside => .block inside
  | taken _ truthy _ first second =>
      exact (first.and second).next fun _ _ both => .taken both.1 truthy both.2
  | skipped _ falsy first =>
      exact (Eventually.positive.and first).next fun _ _ both => .skipped both.1 both.2 falsy
  | branchFails _ first => exact first.next fun _ _ first => .branchFails first
  | chosen _ _ first second =>
      exact (first.and second).next fun _ _ both => .chosen both.1 both.2
  | choiceFails _ first => exact first.next fun _ _ first => .choiceFails first
  | loop _ repeating => exact repeating.next fun _ _ repeating => .loop repeating
  | function => exact Eventually.positive.next fun _ _ _ => .function
  | outside outside => exact Eventually.positive.next fun _ _ _ => .outside outside
  | gaveNothing inside =>
      exact Eventually.positive.next fun _ _ positive => .gaveNothing positive inside
  | gaveBack inside _ inner => exact inner.next fun _ _ inner => .gaveBack inside inner
  | finished => exact .of_forall fun _ _ => .finished
  | further _ _ first rest =>
      exact (first.and rest).mono fun _ _ both => .further both.1 both.2
  | left _ first => exact first.mono fun _ _ first => .left first
  | statementFails _ first => exact first.mono fun _ _ first => .statementFails first
  | ceased _ falsy first => exact first.nextRound fun _ _ first => .ceased first falsy
  | again _ truthy _ _ first second rest =>
      exact (first.and (second.and rest)).nextRound fun _ _ parts =>
        .again parts.1 truthy parts.2.1 parts.2.2
  | leftLoop _ truthy _ first second =>
      exact (first.and second).nextRound fun _ _ both => .leftLoop both.1 truthy both.2
  | bodyFails _ truthy _ first second =>
      exact (first.and second).nextRound fun _ _ both => .bodyFails both.1 truthy both.2
  | conditionFails _ first => exact first.nextRound fun _ _ first => .conditionFails first
  | applyFunction _ inside => exact inside.next fun _ _ inside => .applyFunction inside
  | applyBuiltin _ answers => exact answers.next fun _ _ answers => .applyBuiltin answers
  | answered answered => exact .of_forall fun _ _ => .answered answered
  | missing located => exact .of_forall fun _ _ => .missing located
  | rejected located rejected => exact .of_forall fun _ _ => .rejected located rejected
  | included located accepted derivation nearest _ inside =>
      exact inside.mono fun _ _ inside => .included located accepted derivation nearest inside
  | unapplied unapplied => exact .of_forall fun _ _ => .unapplied unapplied
  | applied applied _ inside => exact inside.mono fun _ _ inside => .applied applied inside
  | program _ inside => exact inside.next fun _ _ inside => .program inside
  | programFails _ inside => exact inside.next fun _ _ inside => .programFails inside

/-- The rules say one thing about a task whose phrases stand in the arena of a machine. -/
theorem Runs.unique
    {outcome other : Except Fault task.Result}
    {last : State}
    {machine : Machine}
    (runs : Runs task context state outcome later)
    (otherRuns : Runs task context state other last)
    (represents : Represents context state machine)
    (performed : ∀ steps rounds, ∃ work, Performs steps rounds machine.arena task work) :
    outcome = other ∧ later = last := by
  obtain ⟨bound, both⟩ := runs.eventually.and otherRuns.eventually
  obtain ⟨carries, otherCarries⟩ := both bound bound (Nat.le_refl _) (Nat.le_refl _)
  obtain ⟨work, performs⟩ := performed (Run.within bound) bound
  obtain ⟨after, ends, stands, -⟩ := carries represents performs
  obtain ⟨otherAfter, otherEnds, otherStands, -⟩ := otherCarries represents performs
  obtain ⟨rfl, rfl⟩ := ended_injective (ends.symm.trans otherEnds)
  exact ⟨rfl, stands.unique otherStands⟩

end Meaning
end Scripting
