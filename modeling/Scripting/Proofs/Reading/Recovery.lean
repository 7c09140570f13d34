import Scripting.Proofs.Reading.Grown
import Scripting.Proofs.Reading.Programs
import Scripting.Proofs.Reading.Relocation
import Scripting.Proofs.Reading.Surroundings

/-!
# Reading on after a loss

A declaration that cannot be read costs nothing but the tokens up to where reading goes
on: what stands before it is read as it is alone, and what stands behind it is read as a
program of its own, with nodes and faults put behind those of before.

Main statement: `readProgram_of_loses`.
-/

namespace Scripting
namespace Tree

open Statement (Derives)

/-- Declarations are read into any arena as they are read into an empty one. -/
theorem readDeclarations_eq_extended (tokens : Token.Sequence) (base : Arena) :
    readDeclarations tokens base =
      (allBehind base (readDeclarations tokens .empty).1,
        (readDeclarations tokens .empty).2.extended base) := by
  have same := relocates_declarationsBefore
    (fun phrase => relocates_readWithin base .same (levelsFor tokens.body.length) phrase) none
    (levelsFor tokens.body.length) #[] ⟨tokens.body, tokens.ending, .empty, #[]⟩
  simpa [Cursor.extended, readDeclarations] using same

/-- Wherever in a program its last declarations are reached, they are read as they are
alone, behind the nodes and the faults of before. -/
theorem declarationsBefore_eq_alone
    {tokens : Token.Sequence}
    (closed : tokens.ending.kind = .endOfInput)
    {count remaining : Nat}
    (enough : tokens.body.length ≤ count)
    (rounds : tokens.body.length ≤ remaining)
    (found : Array (Option NodeId))
    (arena : Arena)
    (faults : Array Fault) :
    let alone := readDeclarations tokens .empty
    declarationsBefore (Phrase.readWithin count) none remaining found
        ⟨tokens.body, tokens.ending, arena, faults⟩ =
      (found.toList ++ allBehind arena alone.1,
        ⟨[], tokens.ending, arena.extended alone.2.arena, faults ++ alone.2.faults⟩) := by
  intro alone
  let surroundings : Surroundings := ⟨faults, [], tokens.ending⟩
  have reading : UnaffectedState surroundings (Cursor.Within tokens.body.length)
      (declarationsBefore (Phrase.readWithin (levelsFor tokens.body.length)) none
        (levelsFor tokens.body.length) #[])
      (declarationsBefore (Phrase.readWithin count) none remaining #[]) :=
    unaffected_declarationsBefore
      (unaffected_readWithin _ _ _ (le_levelsFor _) enough)
      (onward_readWithin _) (takes_readWithin _) none (Nat.le_refl _) (le_levelsFor _) rounds #[]
  have ending : (readDeclarations tokens arena).2.ending = tokens.ending :=
    (onward_readDeclarations arena).ending
  obtain ⟨-, same⟩ :=
    reading ⟨tokens.body, tokens.ending, arena, #[]⟩ ⟨closed, Nat.le_refl _⟩
  have amid : declarationsBefore (Phrase.readWithin count) none remaining #[]
        ⟨tokens.body, tokens.ending, arena, faults⟩ =
      ((readDeclarations tokens arena).1,
        (readDeclarations tokens arena).2.amid surroundings) := by
    have start : Cursor.amid surroundings ⟨tokens.body, tokens.ending, arena, #[]⟩ =
        ⟨tokens.body, tokens.ending, arena, faults⟩ := by
      simp [Cursor.amid, surroundings]
    rw [← start]
    exact same (.inr ⟨rfl, ending.symm⟩)
  have rest : alone.2.rest = [] := readDeclarations_rest closed .empty
  rw [declarationsBefore_found, amid, readDeclarations_eq_extended]
  simp [Cursor.amid, Cursor.extended, surroundings, alone, rest]

/-- The first declaration of some tokens is lost with some faults, and reading goes on at
what follows it. -/
def Loses
    (tokens : Token.Sequence)
    (faults : Array Fault)
    (following : List Token) : Prop :=
  ∀ (count : Nat) (arena : Arena) (earlier : Array Fault), tokens.body.length ≤ count →
    ∃ later, arena ≤ later ∧
      declaration (Phrase.readWithin count) ⟨tokens.body, tokens.ending, arena, earlier⟩ =
        (none, ⟨following, tokens.ending, later, earlier ++ faults⟩)

/-- Reading goes on behind at least one of the tokens. -/
theorem Loses.length_lt
    {tokens : Token.Sequence}
    {faults : Array Fault}
    {following : List Token}
    (loses : Loses tokens faults following)
    (closed : tokens.ending.kind = .endOfInput)
    (nonempty : tokens.body ≠ []) :
    following.length < tokens.body.length := by
  obtain ⟨later, -, equation⟩ := loses tokens.body.length .empty #[] (Nat.le_refl _)
  let start : Cursor := ⟨tokens.body, tokens.ending, .empty, #[]⟩
  have shorter := declaration_shorter (onward_readWithin tokens.body.length) (takes_readWithin _)
    (show start.ending.kind = .endOfInput from closed) nonempty
  rwa [equation] at shorter

/-- Behind declarations that are read one is lost, and reading goes on. -/
theorem readDeclarations_of_loses
    {before lost following : List Token}
    {ending : Token}
    {trees : List Statement}
    {faults : Array Fault}
    (closed : ending.kind = .endOfInput)
    (derivation : Derives .declarations (before ++ lost) lost trees)
    (nearest : Statement.AllElseNearest trees)
    (noElse : NoElse lost)
    (nonempty : lost ≠ [])
    (loses : Loses ⟨lost, ending⟩ faults following)
    (arena : Arena) :
    let alone := readDeclarations ⟨following, ending⟩ .empty
    ∃ ids between, Statement.AllAt trees between ids ∧
      readDeclarations ⟨before ++ lost, ending⟩ arena =
        (ids ++ none :: allBehind between alone.1,
          ⟨[], ending, between.extended alone.2.arena, faults ++ alone.2.faults⟩) := by
  intro alone
  let count := levelsFor (before ++ lost).length
  have enough : (before ++ lost).length ≤ count := le_levelsFor _
  have fewer := loses.length_lt closed nonempty
  obtain ⟨ids, remaining, first, beforeFirst, stand, left, beforeEquation⟩ :=
    declarationsBefore_goesOn_of_derives (readsExpressions_readWithin count)
      (readsStatements_readWithin count) (show none ∈ [none, some Token.Kind.rightBrace] by simp)
      noElse count #[] ending arena #[] derivation nearest enough enough
  rw [List.length_append] at enough
  have lostEnough : lost.length ≤ count := Nat.le_trans (Nat.le_add_left _ _) enough
  obtain ⟨between, firstBetween, lostEquation⟩ := loses count first #[] lostEnough
  obtain ⟨token, others, rfl⟩ := List.exists_cons_of_ne_nil nonempty
  obtain ⟨remaining, rfl⟩ : ∃ fewer, remaining = fewer + 1 :=
    ⟨remaining - 1, by rw [List.length_cons] at left; omega⟩
  dsimp only at fewer lostEquation
  have followingEquation := declarationsBefore_eq_alone
    (show (Token.Sequence.mk following ending).ending.kind = .endOfInput from closed)
    (show following.length ≤ count by omega) (show following.length ≤ remaining by omega)
    (((#[] : Array (Option NodeId)) ++ ids).push none) between faults
  refine ⟨ids, between, stand.mono firstBetween, ?_⟩
  rw [readDeclarations, beforeEquation, declarationsBefore_succ rfl (by simp), lostEquation]
  simpa using followingEquation

/-- A program whose declarations are read up to one that is lost has these declarations,
an absent one, and those of what follows; its faults are those of the loss and then those of
what follows. -/
theorem readProgram_of_loses
    {before lost following : List Token}
    {ending : Token}
    {trees : List Statement}
    {faults : Array Fault}
    (closed : ending.kind = .endOfInput)
    (derivation : Derives .declarations (before ++ lost) lost trees)
    (nearest : Statement.AllElseNearest trees)
    (noElse : NoElse lost)
    (nonempty : lost ≠ [])
    (loses : Loses ⟨lost, ending⟩ faults following)
    (arena : Arena) :
    let alone := readProgram ⟨following, ending⟩ .empty
    let whole := readProgram ⟨before ++ lost, ending⟩ arena
    whole.faults = faults.toList ++ alone.faults ∧
      ∃ (others : List Rose) (ids otherIds : List (Option NodeId)),
        (Rose.node .statements ending none others).StandsAt alone.arena (some alone.root) ∧
          whole.arena.get? whole.root =
            some ⟨.statements, ending, none, ids ++ none :: otherIds⟩ ∧
          Statement.AllAt trees whole.arena ids ∧ Rose.AllStandAt whole.arena others otherIds := by
  intro alone whole
  obtain ⟨ids, between, stand, equation⟩ :=
    readDeclarations_of_loses closed derivation nearest noElse nonempty loses arena
  obtain ⟨others, othersStand⟩ := exists_allStandAt_readDeclarations ⟨following, ending⟩ .empty
  have wholeEquation := readProgram_eq
    (show (Token.Sequence.mk (before ++ lost) ending).ending.kind = .endOfInput from closed) arena
  have aloneEquation := readProgram_eq
    (show (Token.Sequence.mk following ending).ending.kind = .endOfInput from closed) .empty
  rw [equation] at wholeEquation
  let otherIds := allBehind between (readDeclarations ⟨following, ending⟩ .empty).1
  have moved : Rose.AllStandAt (between.extended _) others otherIds := othersStand.extended
  refine ⟨by simp [whole, alone, wholeEquation, aloneEquation], others, ids, otherIds,
    ?_, ?_, ?_, ?_⟩
  · simp only [alone, aloneEquation]
    exact Rose.standsAt_add othersStand
  · simp only [whole, wholeEquation]
    exact Arena.get?_add_nextId _ _
  · simp only [whole, wholeEquation]
    exact stand.mono (Arena.le_trans (Arena.le_extended _ _) (Arena.le_add _ _))
  · simp only [whole, wholeEquation]
    exact moved.mono (Arena.le_add _ _)

end Tree
end Scripting
