import Scripting.Proofs.Reading.Drawn
import Scripting.Proofs.Reading.Stretches

/-!
# The faults of a source, stage by stage

A source is cut into tokens before its structure is recognized, and its faults are given in
the order of these stages.  The faults of the tokens follow one another as the stretches do
with which no token begins.

Main statements: `structural_faults_staged`, `lexical_faults_ordered`.
-/

namespace Scripting

open Tree (Arena)

/-- The faults of the tokens of a source. -/
def lexicalFaultsOf (source : String) : List Fault :=
  (Token.Scan.ofSource source).faults.toList.map (·.withSource source)

/-- The faults of the structure of a source. -/
def structuralFaultsOf (source : String) : List Fault :=
  (Tree.readProgram (tokensOf source) .empty).faults.map (·.withSource source)

theorem faultsOf_eq (source : String) :
    faultsOf source = lexicalFaultsOf source ++ structuralFaultsOf source :=
  List.map_append

/-- The faults of the structure are structural. -/
theorem structural_faults_staged (source : String) :
    ∀ fault ∈ structuralFaultsOf source, fault.stage = .structural := by
  have closed : (tokensOf source).ending.kind = .endOfInput := rfl
  have drawn : Arena.empty.DrawnFrom fun _ => True := fun _ _ _ => trivial
  obtain ⟨-, stages⟩ := Tree.draws_readProgram closed (fun _ _ => trivial) trivial drawn
  intro fault member
  obtain ⟨found, inside, rfl⟩ := List.mem_map.mp member
  exact (congrArg Cause.stage (found.withSource_cause source)).trans (stages found inside)

/-- The first fault is blamed on an earlier place than the second one. -/
def Fault.Precedes (fault later : Fault) : Prop :=
  ∃ span other, fault.span = some span ∧ later.span = some other ∧ span.start < other.start

namespace Token.Stretch

variable {before : List Char} {fault : Fault}

/-- The fault of a stretch is lexical and stands where the stretch begins, or after it when
nothing else comes. -/
theorem FitsBetween.fault_span
    {after : List Char}
    {stretch : Stretch}
    (fits : stretch.FitsBetween before after)
    (isFault : stretch.fault? = some fault) :
    fault.stage = .lexical ∧ ∃ span, fault.span = some span ∧ bytes before ≤ span.start ∧
      (after ≠ [] → span.start = bytes before) := by
  obtain ⟨span, -, isRole⟩ := fits
  cases role : stretch.role with
  | stray found =>
      simp only [fault?, role, Option.some.injEq] at isFault
      simp only [role, isFault] at isRole
      obtain ⟨c, -, -, -, rfl⟩ := isRole
      exact ⟨rfl, _, rfl, span ▸ Nat.le_refl _, fun _ => span ▸ rfl⟩
  | unclosed found =>
      simp only [fault?, role, Option.some.injEq] at isFault
      simp only [role, isFault] at isRole
      obtain ⟨body, -, -, last, rfl⟩ := isRole
      refine ⟨rfl, _, rfl, ?_, fun more => absurd last more⟩
      change bytes before ≤ bytes (before ++ stretch.text)
      rw [bytes_append]
      exact Nat.le_add_right _ _
  | token _ | blank | comment => simp [fault?, role] at isFault

/-- The faults of stretches are lexical, and follow one another. -/
theorem AllFit.faults_ordered
    {stretches : List Stretch}
    (fit : AllFit before stretches) :
    (∀ fault ∈ stretches.filterMap fault?, fault.stage = .lexical ∧
        ∃ span, fault.span = some span ∧ bytes before ≤ span.start) ∧
      (stretches.filterMap fault?).Pairwise Fault.Precedes := by
  induction stretches generalizing before with
  | nil => exact ⟨by simp, .nil⟩
  | cons first others inductionHypothesis =>
      obtain ⟨fits, rest⟩ := fit
      obtain ⟨stand, ordered⟩ := inductionHypothesis rest
      simp only [bytes_append] at stand
      have further : ∀ fault ∈ others.filterMap fault?, fault.stage = .lexical ∧
          ∃ span, fault.span = some span ∧ bytes before ≤ span.start := fun fault member =>
        let ⟨stage, span, isSpan, starts⟩ := stand fault member
        ⟨stage, span, isSpan, Nat.le_of_add_right_le starts⟩
      cases isFault : first.fault? with
      | none =>
          rw [List.filterMap_cons_none isFault]
          exact ⟨further, ordered⟩
      | some fault =>
          obtain ⟨stage, span, isSpan, starts, place⟩ := fits.fault_span isFault
          rw [List.filterMap_cons_some isFault]
          refine ⟨List.forall_mem_cons.mpr ⟨⟨stage, span, isSpan, starts⟩, further⟩,
            .cons (fun later member => ?_) ordered⟩
          obtain ⟨stretch, inside, -⟩ := List.mem_filterMap.mp member
          obtain ⟨_, _, _, _, _, nonempty, -⟩ := rest.exists_fitsBetween inside
          have more : others.flatMap text ≠ [] := fun none =>
            nonempty (List.flatMap_eq_nil_iff.mp none stretch inside)
          obtain ⟨-, other, isOther, after⟩ := stand later member
          have positive := bytes_pos fits.2.1
          exact ⟨span, other, isSpan, isOther, by rw [place more]; omega⟩

end Token.Stretch

/-- The faults of the tokens are lexical, and in the order in which they stand in the
source. -/
theorem lexical_faults_ordered (source : String) :
    (∀ fault ∈ lexicalFaultsOf source, fault.stage = .lexical) ∧
      (lexicalFaultsOf source).Pairwise Fault.Precedes := by
  obtain ⟨-, fit, -, faults⟩ := Token.Scan.ofText_accounts source.toList
  obtain ⟨stand, ordered⟩ := fit.faults_ordered
  rw [← faults] at stand ordered
  constructor
  · intro fault member
    obtain ⟨found, inside, rfl⟩ := List.mem_map.mp member
    exact (congrArg Cause.stage (found.withSource_cause source)).trans (stand found inside).1
  · refine List.pairwise_map.mpr (ordered.imp ?_)
    rintro fault later ⟨span, other, isSpan, isOther, before⟩
    exact ⟨span, other, by simpa using isSpan, by simpa using isOther, before⟩

end Scripting
