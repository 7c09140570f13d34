import Scripting.Proofs.Reading.Clauses
import Scripting.Proofs.Reading.Recovery
import Scripting.Proofs.Running.TopLevel

/-!
# Malformed statements

A malformed clause between two programs is reported by itself, and the programs are read
and executed as if it were not there.

Main statement: `readProgram_around_clause`.
-/

namespace Scripting
namespace Tree

open Token (Kind)
open Statement (Derives)

/-- After a failure in a clause on which no statement opens again, reading goes on behind the
clause. -/
theorem resume_of_clause
    {tokens : List Token}
    (clause : IsClause tokens)
    (quiet : ∀ token ∈ tokens.tail, token.kind.startsStatement = false)
    (following : List Token) :
    resume (tokens ++ following) = following := by
  induction clause with
  | last ends => simp [resume, ends]
  | before inside _ clause inductionHypothesis =>
      obtain ⟨next, others, rfl⟩ := List.exists_cons_of_ne_nil clause.ne_nil
      have nextQuiet : next.kind.startsStatement = false := quiet next List.mem_cons_self
      rw [List.cons_append, List.cons_append, resume_cons_cons, if_neg inside,
        if_neg (by simp [nextQuiet])]
      exact inductionHypothesis fun token member => quiet token (List.mem_cons_of_mem next member)

/-- What stands behind the first token of a last part stands behind the first token of the
whole. -/
theorem mem_tail_of_suffix
    {part whole : List Token}
    (suffix : part <:+ whole)
    {token : Token}
    (member : token ∈ part.tail) :
    token ∈ whole.tail := by
  obtain ⟨front, rfl⟩ := suffix
  cases front with
  | nil => exact member
  | cons first front => exact List.mem_append_right front (List.mem_of_mem_tail member)

section Lost

variable
  {clause : List Token}
  {ending : Token}
  (isClause : IsClause clause)
  (quiet : ∀ token ∈ clause.tail, token.kind.startsStatement = false)

include isClause quiet

/-- A clause of which nothing is left but an absent declaration has failed before its end. -/
theorem exists_fault_of_lost
    {arena : Arena}
    (lost : (readDeclarations ⟨clause, ending⟩ arena).1 = [none]) :
    let start : Cursor := ⟨clause, ending, arena, #[]⟩
    ∃ fault later,
      attempt (Phrase.readWithin (levelsFor clause.length)) start = .error fault later ∧
        IsClause later.rest ∧ OnlyTargets start later ∧ fault.cause.isExpectation = true ∧
        (readDeclarations ⟨clause, ending⟩ arena).2.faults = later.faults.push fault := by
  intro start
  let count := levelsFor clause.length
  have ends := endsClause_attempt_readWithin count start isClause
  have onward := onward_attempt (onward_readWithin count) start
  obtain ⟨token, others, front⟩ := List.exists_cons_of_ne_nil isClause.ne_nil
  obtain ⟨remaining, positive⟩ : ∃ remaining, count = remaining + 1 := by
    have enough : clause.length ≤ count := le_levelsFor clause.length
    rw [front, List.length_cons] at enough
    exact ⟨count - 1, by omega⟩
  have first : readDeclarations ⟨clause, ending⟩ arena =
      declarationsBefore (Phrase.readWithin count) none remaining
        (#[].push (declaration (Phrase.readWithin count) start).1)
        (declaration (Phrase.readWithin count) start).2 := by
    calc readDeclarations ⟨clause, ending⟩ arena
        = declarationsBefore (Phrase.readWithin count) none (remaining + 1) #[] start := by
          rw [← positive]
          rfl
      _ = _ := declarationsBefore_succ front (by simp)
  rw [declaration_eq_recovering] at first
  cases equation : attempt (Phrase.readWithin count) start with
  | ok id later =>
      rw [equation] at ends
      rw [recovering_of_ok equation, declarationsBefore_of_nil ends.1] at first
      rw [first] at lost
      simp at lost
  | error fault later =>
      rw [equation] at ends onward
      obtain ⟨stillClause, targets, expected⟩ := ends
      have nothing : resume later.rest = [] := by
        have quietLater : ∀ token ∈ later.rest.tail, token.kind.startsStatement = false :=
          fun token member => quiet token (mem_tail_of_suffix onward.rest member)
        simpa using resume_of_clause stillClause quietLater []
      rw [recovering_of_error equation, declarationsBefore_of_nil nothing] at first
      exact ⟨fault, later, rfl, stillClause, targets, expected, by rw [first]⟩

/-- A clause that is lost alone is lost in front of other tokens, and reading goes on at
these. -/
theorem loses_of_lost
    (closed : ending.kind = .endOfInput)
    (lost : (readDeclarations ⟨clause, ending⟩ .empty).1 = [none])
    (following : List Token)
    (otherEnding : Token) :
    Loses ⟨clause ++ following, otherEnding⟩
      (readDeclarations ⟨clause, ending⟩ .empty).2.faults following := by
  intro count arena earlier enough
  have lostHere : (readDeclarations ⟨clause, ending⟩ arena).1 = [none] := by
    rw [readDeclarations_eq_extended, lost]
    rfl
  have sameFaults : (readDeclarations ⟨clause, ending⟩ arena).2.faults =
      (readDeclarations ⟨clause, ending⟩ .empty).2.faults := by
    rw [readDeclarations_eq_extended]
    rfl
  obtain ⟨fault, later, fails, stillClause, -, -, faults⟩ :=
    exists_fault_of_lost isClause quiet lostHere
  have clauseEnough : clause.length ≤ count := by
    rw [List.length_append] at enough
    omega
  let surroundings : Surroundings := ⟨earlier, following, otherEnding⟩
  have reading : Unaffected surroundings (Cursor.Within clause.length)
      (attempt (Phrase.readWithin (levelsFor clause.length))) (attempt (Phrase.readWithin count)) :=
    unaffected_attempt (unaffected_readWithin _ _ _ (le_levelsFor _) clauseEnough)
  obtain ⟨onward, same⟩ := reading ⟨clause, ending, arena, #[]⟩ ⟨closed, Nat.le_refl _⟩
  rw [fails] at onward same
  have failsAmid : attempt (Phrase.readWithin count)
        ⟨clause ++ following, otherEnding, arena, earlier⟩ =
      .error fault (later.amid surroundings) := by
    simpa [Cursor.amid, surroundings, resultAmid] using same (.inl stillClause.ne_nil)
  have resumed : resume (later.rest ++ following) = following :=
    resume_of_clause stillClause
      (fun token member => quiet token (mem_tail_of_suffix onward.rest member)) following
  refine ⟨later.arena, onward.arena, ?_⟩
  rw [declaration_eq_recovering, recovering_of_error failsAmid, ← sameFaults, faults]
  simp [Cursor.amid, surroundings, resumed]

end Lost

/-- When the only child of the root is absent, one declaration was read and lost. -/
theorem readDeclarations_of_standsAt_absent
    {tokens : Token.Sequence}
    (closed : tokens.ending.kind = .endOfInput)
    {arena : Arena}
    (lost : (Rose.node .statements tokens.ending none [.absent]).StandsAt
      (readProgram tokens arena).arena (some (readProgram tokens arena).root)) :
    (readDeclarations tokens arena).1 = [none] := by
  obtain ⟨index, ids, same, found, below⟩ := (Rose.standsAt_node ..).mp lost
  cases same
  rw [get?_root closed arena] at found
  simp only [Option.some.injEq, Node.mk.injEq, true_and] at found
  obtain ⟨id, idsEquation, absent⟩ := (Rose.allStandAt_singleton ..).mp below
  rw [found, idsEquation, (Rose.standsAt_absent id).mp absent]

/-- Only one of the faults of a lost clause is that something else was expected. -/
theorem countP_isExpectation_of_lost
    {clause : List Token}
    {ending : Token}
    (isClause : IsClause clause)
    (quiet : ∀ token ∈ clause.tail, token.kind.startsStatement = false)
    {arena : Arena}
    (lost : (readDeclarations ⟨clause, ending⟩ arena).1 = [none]) :
    ((readDeclarations ⟨clause, ending⟩ arena).2.faults.toList.countP
      (·.cause.isExpectation)) = 1 := by
  obtain ⟨fault, later, -, -, ⟨new, equation, targets⟩, expected, faults⟩ :=
    exists_fault_of_lost isClause quiet lost
  have none : new.countP (·.cause.isExpectation) = 0 := by
    rw [List.countP_eq_zero]
    intro other member
    simp [targets other member, Cause.isExpectation]
  rw [faults, Array.toList_push, equation]
  simp [none, expected]

/-- A malformed clause between two programs, of which the first is faultless, leaves out
one declaration: the tree has those of the first program, an absent one and those of the
second as it is read alone. The faults are those of the clause alone, one of which is that
something else was expected, and then those of the second program alone. To execute the
whole is to execute the declarations of the first program and then those of the second. -/
theorem readProgram_around_clause
    {before clause after : List Token}
    {beforeEnding clauseEnding ending : Token}
    (beforeClosed : beforeEnding.kind = .endOfInput)
    (clauseClosed : clauseEnding.kind = .endOfInput)
    (closed : ending.kind = .endOfInput)
    (faultless : (readProgram ⟨before, beforeEnding⟩ .empty).faults = [])
    (isClause : IsClause clause)
    (noElse : NoElse clause)
    (quiet : ∀ token ∈ clause.tail, token.kind.startsStatement = false)
    (lost : (Rose.node .statements clauseEnding none [.absent]).StandsAt
      (readProgram ⟨clause, clauseEnding⟩ .empty).arena
      (some (readProgram ⟨clause, clauseEnding⟩ .empty).root))
    (arena : Arena) :
    let first := readProgram ⟨before, beforeEnding⟩ .empty
    let malformed := readProgram ⟨clause, clauseEnding⟩ .empty
    let second := readProgram ⟨after, ending⟩ .empty
    let whole := readProgram ⟨before ++ (clause ++ after), ending⟩ arena
    whole.faults = malformed.faults ++ second.faults ∧
      malformed.faults.countP (·.cause.isExpectation) = 1 ∧
      ∃ (trees others : List Rose) (ids otherIds : List (Option NodeId)),
        (Rose.node .statements beforeEnding none trees).StandsAt first.arena (some first.root) ∧
          (Rose.node .statements ending none others).StandsAt second.arena (some second.root) ∧
          whole.arena.get? whole.root =
            some ⟨.statements, ending, none, ids ++ none :: otherIds⟩ ∧
          Rose.AllStandAt whole.arena trees ids ∧ Rose.AllStandAt whole.arena others otherIds ∧
          ∀ machine : Machine, whole.arena ≤ machine.arena →
            Run.interpret whole.root machine =
              Run.leave machine.scope machine.base
                ((do
                  let _ ← Run.statements ids
                  Run.statements otherIds)
                  { machine with scope := Scope.global, base := machine.depth }) := by
  intro first malformed second whole
  have malformedEquation : malformed = _ := readProgram_eq clauseClosed .empty
  have malformedFaults : malformed.faults =
      (readDeclarations ⟨clause, clauseEnding⟩ .empty).2.faults.toList := by
    rw [malformedEquation]
  have lostAlone := readDeclarations_of_standsAt_absent clauseClosed lost
  have afterClause : NoElse (clause ++ after) := by
    obtain ⟨token, others, rfl⟩ := List.exists_cons_of_ne_nil isClause.ne_nil
    exact noElse
  obtain ⟨anyTrees, anyDerivation⟩ := isStatement_of_faultless beforeClosed faultless
  obtain ⟨trees, derivation, nearest⟩ := anyDerivation.exists_elseNearest
  obtain ⟨-, -, beforeStands⟩ := readProgram_of_derives _ derivation nearest .empty
  obtain ⟨wholeFaults, others, ids, otherIds, afterStands, root, stand, othersStand⟩ :=
    readProgram_of_loses closed (derivation.append (clause ++ after)) nearest afterClause
      (List.append_ne_nil_of_left_ne_nil isClause.ne_nil after)
      (loses_of_lost isClause quiet clauseClosed lostAlone after ending) arena
  refine ⟨wholeFaults.trans (by rw [malformedFaults]), ?_, Statement.roses trees, others, ids,
    otherIds, beforeStands, afterStands, root, stand, othersStand, fun machine before => ?_⟩
  · rw [malformedFaults]
    exact countP_isExpectation_of_lost isClause quiet lostAlone
  · rw [Run.interpret_of_root (Arena.get?_of_le before root)]
    congr 1
    exact Run.statements_around_none rfl ids otherIds

/-- Between two statements that write, one that lacks its value. -/
theorem readProgram_around_clause_of_echo :
    let word := Token.placeless (.keyword .echoWord) "echo"
    let value := Token.placeless (.keyword .nullWord) "null"
    let semicolon := Token.placeless .semicolon ";"
    let ending := Token.placeless .endOfInput ""
    let whole : Token.Sequence :=
      ⟨[word, value, semicolon] ++ ([word, semicolon] ++ [word, value, semicolon]), ending⟩
    (readProgram ⟨[word, value, semicolon], ending⟩ .empty).faults = [] ∧
      IsClause [word, semicolon] ∧
      (Rose.node .statements ending none [.absent]).StandsAt
        (readProgram ⟨[word, semicolon], ending⟩ .empty).arena
        (some (readProgram ⟨[word, semicolon], ending⟩ .empty).root) ∧
      (readProgram whole .empty).faults =
        (readProgram ⟨[word, semicolon], ending⟩ .empty).faults ++ [] := by
  intro word value semicolon ending whole
  have faultless : (readProgram ⟨[word, value, semicolon], ending⟩ .empty).faults = [] := by
    decide +kernel
  have isClause : IsClause [word, semicolon] := .before (by decide) (by decide) (.last rfl)
  have declared : (readDeclarations ⟨[word, semicolon], ending⟩ .empty).1 = [none] := by
    decide +kernel
  have lost : (Rose.node .statements ending none [.absent]).StandsAt
      (readProgram ⟨[word, semicolon], ending⟩ .empty).arena
      (some (readProgram ⟨[word, semicolon], ending⟩ .empty).root) := by
    refine (Rose.standsAt_node ..).mpr ⟨_, [none], rfl, ?_, by simp⟩
    rw [get?_root rfl, declared]
  have closed : ending.kind = .endOfInput := rfl
  have around := @readProgram_around_clause [word, value, semicolon] [word, semicolon]
    [word, value, semicolon] ending ending ending closed closed closed faultless isClause
    (by simp [NoElse, word, Token.placeless]) (by decide) lost .empty
  exact ⟨faultless, isClause, lost, faultless ▸ around.1⟩

end Tree
end Scripting
