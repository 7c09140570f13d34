import Scripting.Machine
import Scripting.Proofs.Reading.Programs
import Scripting.Proofs.Reading.Relocation

/-!
# Reading sources

The faults that are found while a source is read do not depend on the machine that
reads it (`readSource_faults`).  A source that is accepted, because it has none,
consists of declarations of the grammar (`derives_of_accepts`).
-/

namespace Scripting

open Tree (Arena Statement)

/-- The tokens of a source. -/
def tokensOf (source : String) : Token.Sequence :=
  (Token.Scan.ofSource source).sequence

/-- The faults found while a source is read. -/
def faultsOf (source : String) : List Fault :=
  let scan := Token.Scan.ofSource source
  (scan.faults.toList ++ (Tree.readProgram scan.sequence .empty).faults).map (·.withSource source)

/-- Whether a source is read without faults. -/
def accepts (source : String) : Bool :=
  (faultsOf source).isEmpty

/-- The faults found while a source is read do not depend on the machine. -/
theorem readSource_faults (machine : Machine) (source : String) :
    (machine.readSource source).1.2 = faultsOf source := by
  simp only [Machine.readSource, faultsOf, Tree.readProgram_faults _ machine.arena]

/-- What is accepted consists of declarations. -/
theorem derives_of_accepts
    {source : String}
    (accepted : accepts source = true) :
    (Token.Scan.ofSource source).faults = #[] ∧
      ∃ trees, Statement.Derives .declarations (tokensOf source).body [] trees ∧
        Statement.AllElseNearest trees := by
  unfold accepts faultsOf at accepted
  rw [List.isEmpty_iff, List.map_eq_nil_iff, List.append_eq_nil_iff] at accepted
  obtain ⟨scanned, read⟩ := accepted
  obtain ⟨trees, derivation⟩ := Tree.isStatement_of_faultless rfl read
  exact ⟨Array.toList_eq_nil_iff.mp scanned, derivation.exists_elseNearest⟩

theorem accepts_of_faultless
    {source : String}
    {arena : Arena}
    (clean : (Token.Scan.ofSource source).faults = #[])
    (faultless : (Tree.readProgram (tokensOf source) arena).faults = []) :
    accepts source = true := by
  have read : (Tree.readProgram (tokensOf source) .empty).faults = [] := by
    rw [← Tree.readProgram_faults _ arena, faultless]
  unfold accepts faultsOf
  rw [List.isEmpty_iff, List.map_eq_nil_iff, List.append_eq_nil_iff]
  exact ⟨congrArg Array.toList clean, read⟩

end Scripting
