import Scripting.Proofs.Reading.FaultlessStatements

/-!
# Reading whole programs

A program is read without a fault exactly when its tokens are declarations of the
grammar, and then its root is their layout, with every `else` at the nearest `if`
(`readProgram_faultless_iff`).  No other declarations of which this is true have the
same tokens (`derives_unique`).
-/

namespace Scripting
namespace Tree

open Statement (Derives)

/-- The layout of a program. -/
def programRose (ending : Token) (trees : List Statement) : Rose :=
  .node .statements ending none (Statement.roses trees)

/-- What is read after the last declaration of the grammar is the end of the input. -/
theorem readProgram_of_derives
    (tokens : Token.Sequence)
    {trees : List Statement}
    (derivation : Derives .declarations tokens.body [] trees)
    (nearest : Statement.AllElseNearest trees)
    (arena : Arena) :
    (readProgram tokens arena).faults = [] ∧
      arena ≤ (readProgram tokens arena).arena ∧
      (programRose tokens.ending trees).StandsAt (readProgram tokens arena).arena
        (some (readProgram tokens arena).root) := by
  have enough := le_levelsFor tokens.body.length
  obtain ⟨ids, later, before, stand, equation⟩ :=
    declarationsBefore_of_derives
      (readsExpressions_readWithin (levelsFor tokens.body.length))
      (readsStatements_readWithin (levelsFor tokens.body.length))
      (show none ∈ [none, some Token.Kind.rightBrace] by simp) (by simp)
      (levelsFor tokens.body.length) #[] tokens.ending arena #[] derivation nearest enough enough
  simp only [List.nil_append] at equation
  simp only [readProgram, program, equation, Cursor.current, List.headD_nil]
  exact ⟨trivial, Arena.le_trans before (later.le_add _), Rose.standsAt_add stand⟩

theorem isStatement_of_faultless
    {tokens : Token.Sequence}
    {arena : Arena}
    (closed : tokens.ending.kind = .endOfInput)
    (faultless : (readProgram tokens arena).faults = []) :
    IsStatement .declarations tokens.body [] := by
  have enough := le_levelsFor tokens.body.length
  cases equation : declarationsBefore (Phrase.readWithin (levelsFor tokens.body.length)) none
      (levelsFor tokens.body.length) #[] ⟨tokens.body, tokens.ending, arena, #[]⟩ with
  | mk ids later =>
      simp only [readProgram, program, equation] at faultless
      obtain ⟨phrase, stop⟩ := declarationsBefore_faultless
        (findsStatements_readWithin (levelsFor tokens.body.length)) closed enough enough equation
        (by simp_all)
      cases rest : later.rest with
      | nil =>
          rw [rest] at phrase
          exact phrase
      | cons token others => simp [rest] at stop

/-- Two programs of the same tokens in which every `else` belongs to the nearest `if`
are the same. -/
theorem derives_unique
    {tokens : List Token}
    {trees others : List Statement}
    (derivation : Derives .declarations tokens [] trees)
    (nearest : Statement.AllElseNearest trees)
    (otherDerivation : Derives .declarations tokens [] others)
    (otherNearest : Statement.AllElseNearest others) :
    trees = others := by
  let whole : Token.Sequence := ⟨tokens, .placeless .endOfInput ""⟩
  obtain ⟨-, -, stands⟩ := readProgram_of_derives whole derivation nearest Arena.empty
  obtain ⟨-, -, otherStands⟩ :=
    readProgram_of_derives whole otherDerivation otherNearest Arena.empty
  have same := stands.unique otherStands
  simp only [programRose, Rose.node.injEq, true_and] at same
  exact Statement.roses_injective same

/-- The tokens that are read are those before the first end of input. -/
theorem ofList_body (tokens : List Token) :
    (Token.Sequence.ofList tokens).body =
      tokens.takeWhile fun token => token.kind ≠ .endOfInput := by
  induction tokens with
  | nil => rfl
  | cons token rest inductionHypothesis =>
      unfold Token.Sequence.ofList
      by_cases ends : token.kind = .endOfInput
      · simp [ends]
      · simp [ends, inductionHypothesis]

/-- A program is read without a fault exactly when the tokens before the end of the
input are declarations of the grammar. Then the root is the layout of those
declarations in which every `else` belongs to the nearest `if`, and there is only one
way to derive such declarations. -/
theorem readProgram_faultless_iff (tokens : List Token) (arena : Arena) :
    let body := tokens.takeWhile fun token => token.kind ≠ .endOfInput
    let sequence := Token.Sequence.ofList tokens
    let program := readProgram sequence arena
    (program.faults = [] ↔ ∃ trees, Derives .declarations body [] trees) ∧
      (program.faults = [] →
        ∃ trees,
          (programRose sequence.ending trees).StandsAt program.arena (some program.root) ∧
            ∀ others,
              Derives .declarations body [] others ∧ Statement.AllElseNearest others ↔
                others = trees) := by
  intro body sequence program
  have sameBody : body = sequence.body := (ofList_body tokens).symm
  rw [sameBody]
  have closed : sequence.ending.kind = .endOfInput := Token.Sequence.ofList_ending_kind tokens
  refine ⟨⟨fun faultless => isStatement_of_faultless closed faultless, ?_⟩, fun faultless => ?_⟩
  · rintro ⟨trees, derivation⟩
    obtain ⟨nearest, nearestDerivation, isNearest⟩ := derivation.exists_elseNearest
    exact (readProgram_of_derives _ nearestDerivation isNearest arena).1
  · obtain ⟨trees, derivation⟩ := isStatement_of_faultless closed faultless
    obtain ⟨nearest, nearestDerivation, isNearest⟩ := derivation.exists_elseNearest
    refine ⟨nearest, (readProgram_of_derives _ nearestDerivation isNearest arena).2.2, ?_⟩
    intro others
    constructor
    · rintro ⟨otherDerivation, otherNearest⟩
      exact derives_unique otherDerivation otherNearest nearestDerivation isNearest
    · rintro rfl
      exact ⟨nearestDerivation, isNearest⟩

end Tree
end Scripting
