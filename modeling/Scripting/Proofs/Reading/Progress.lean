import Scripting.Proofs.Reading.Blame
import Scripting.Proofs.Reading.Programs
import Scripting.Proofs.Reading.Surroundings

/-!
# Reading ends at the first end of the input

Whatever the tokens are, they are read up to the first end of the input and no further.
The bounds on levels and on rounds play no part in that: where they are at least the
number of tokens left, what is read does not depend on them (`readWithin_eq_of_ample`,
`declarationsBefore_eq_of_ample`), so they are never used up, and without them reading
would come to the same end.

Main statement: `readProgram_reaches_end`.
-/

namespace Scripting

namespace Token.Sequence

/-- What stands behind the first end of the input is left out. -/
theorem ofList_append
    {tokens : Sequence}
    (inside : ∀ token ∈ tokens.body, token.kind ≠ .endOfInput)
    (closed : tokens.ending.kind = .endOfInput)
    (behind : List Token) :
    ofList (tokens.toList ++ behind) = tokens := by
  obtain ⟨body, ending⟩ := tokens
  induction body with
  | nil => exact if_pos closed
  | cons token body inductionHypothesis =>
      rw [List.forall_mem_cons] at inside
      have others := inductionHypothesis inside.2 closed
      simp_all [toList, ofList]

/-- Tokens with an end of the input are those up to the first one and what stands behind
it. -/
theorem exists_eq_append
    {all : List Token}
    (ends : ∃ token ∈ all, token.kind = .endOfInput) :
    ∃ behind, all = (ofList all).toList ++ behind := by
  induction all with
  | nil => simp at ends
  | cons token others inductionHypothesis =>
      unfold ofList
      split
      next => exact ⟨others, rfl⟩
      next notEnd =>
        have later : ∃ token ∈ others, token.kind = .endOfInput := by
          simpa [notEnd] using ends
        obtain ⟨behind, whole⟩ := inductionHypothesis later
        exact ⟨behind, congrArg (token :: ·) whole⟩

end Token.Sequence

namespace Tree

open Token (Kind)

variable {α : Type}

/-! ## Bounds that are never used up -/

/-- Nothing stands around the whole input. -/
def Surroundings.nothing (ending : Token) : Surroundings :=
  ⟨#[], [], ending⟩

theorem Surroundings.outOfSight_nothing
    {cursor : Cursor}
    {ending : Token}
    (same : cursor.ending = ending) :
    (nothing ending).OutOfSight cursor :=
  .inr ⟨rfl, same.symm⟩

theorem Cursor.amid_nothing
    {cursor : Cursor}
    {ending : Token}
    (same : cursor.ending = ending) :
    cursor.amid (.nothing ending) = cursor := by
  subst same
  simp [amid, Surroundings.nothing]

theorem resultAmid_nothing
    {result : EStateM.Result Fault Cursor α}
    {ending : Token}
    (same : (cursorAfter result).ending = ending) :
    resultAmid (.nothing ending) result = result := by
  cases result with
  | ok value later => exact congrArg (EStateM.Result.ok value) (Cursor.amid_nothing same)
  | error fault later => exact congrArg (EStateM.Result.error fault) (Cursor.amid_nothing same)

/-- Work that surroundings do not affect is the same where there are none. -/
theorem Unaffected.eq
    {holds : Cursor → Prop}
    {work other : Parse α}
    {cursor : Cursor}
    (unaffected : Unaffected (.nothing cursor.ending) holds work other)
    (held : holds cursor) :
    other cursor = work cursor := by
  obtain ⟨onward, same⟩ := unaffected cursor held
  have alone := same (Surroundings.outOfSight_nothing onward.ending)
  rwa [Cursor.amid_nothing rfl, resultAmid_nothing onward.ending] at alone

theorem UnaffectedState.eq
    {holds : Cursor → Prop}
    {work other : StateM Cursor α}
    {cursor : Cursor}
    (unaffected : UnaffectedState (.nothing cursor.ending) holds work other)
    (held : holds cursor) :
    other cursor = work cursor := by
  obtain ⟨onward, same⟩ := unaffected cursor held
  have alone := same (Surroundings.outOfSight_nothing onward.ending)
  rwa [Cursor.amid_nothing rfl, Cursor.amid_nothing onward.ending] at alone

section Ample

variable {cursor : Cursor} {count otherCount : Nat}
  (closed : cursor.ending.kind = .endOfInput)
  (ample : cursor.rest.length ≤ count)
  (otherAmple : cursor.rest.length ≤ otherCount)

include closed ample otherAmple

/-- A phrase is read alike within any two bounds that are large enough. -/
theorem readWithin_eq_of_ample (phrase : Phrase) :
    phrase.readWithin count cursor = phrase.readWithin otherCount cursor :=
  (unaffected_readWithin _ otherCount count otherAmple ample phrase).eq ⟨closed, Nat.le_refl _⟩

/-- Declarations are read alike within any bounds that are large enough. -/
theorem declarationsBefore_eq_of_ample
    {remaining otherRemaining : Nat}
    (rounds : cursor.rest.length ≤ remaining)
    (otherRounds : cursor.rest.length ≤ otherRemaining)
    (closing : Option Kind)
    (found : Array (Option NodeId)) :
    declarationsBefore (Phrase.readWithin count) closing remaining found cursor =
      declarationsBefore (Phrase.readWithin otherCount) closing otherRemaining found cursor :=
  (unaffected_declarationsBefore (unaffected_readWithin _ otherCount count otherAmple ample)
    (onward_readWithin _) (takes_readWithin _) closing (Nat.le_refl _) otherRounds rounds
    found).eq ⟨closed, Nat.le_refl _⟩

end Ample

/-- A program is read alike within all bounds that are large enough, and its root stands for
the end of the input. -/
theorem program_eq_of_ample
    {tokens : Token.Sequence}
    (closed : tokens.ending.kind = .endOfInput)
    {count : Nat}
    (ample : tokens.body.length ≤ count)
    (arena : Arena) :
    let found := readDeclarations tokens arena
    program count ⟨tokens.body, tokens.ending, arena, #[]⟩ =
      (found.2.arena.nextId,
        { found.2 with
          arena := found.2.arena.add ⟨.statements, tokens.ending, none, found.1⟩ }) := by
  intro found
  have enough := le_levelsFor tokens.body.length
  have same : declarationsBefore (Phrase.readWithin count) none count #[]
      ⟨tokens.body, tokens.ending, arena, #[]⟩ = found :=
    declarationsBefore_eq_of_ample closed ample enough ample enough none #[]
  rw [program, same, ← readDeclarations_current closed arena]

/-! ## The end of the input -/

/-- The faults are blamed on tokens of the sequence, each of them at its place, and no place
but that of the end is blamed by two of them. -/
def BlamedOnce (tokens : Token.Sequence) (faults : List Fault) : Prop :=
  ∃ blamed : List (Fault × Nat), blamed.map Prod.fst = faults ∧
    (∀ entry ∈ blamed, ∃ cause token,
      tokens.toList[entry.2]? = some token ∧ entry.1 = Fault.atToken cause token) ∧
    blamed.Pairwise fun entry other => entry.2 = other.2 → entry.2 = tokens.body.length

/-- The place of a token, counted from the front, from the number of tokens that are left
when it is next. -/
theorem getElem?_toList_sub
    (tokens : Token.Sequence)
    (arena : Arena)
    {left : Nat}
    (few : left ≤ tokens.body.length) :
    tokens.toList[tokens.body.length - left]? =
      some (Cursor.tokenAt ⟨tokens.body, tokens.ending, arena, #[]⟩ left) := by
  unfold Token.Sequence.toList Cursor.tokenAt
  obtain rfl | pos := Nat.eq_zero_or_pos left
  · simp
  · have inside : tokens.body.length - left < tokens.body.length := by omega
    rw [List.getElem?_append_left inside, List.getElem?_eq_getElem inside,
      List.drop_eq_getElem_cons inside]
    rfl

theorem Cursor.Blaming.blamedOnce
    {tokens : Token.Sequence}
    {arena : Arena}
    {later : Cursor}
    {blamed : List (Fault × Nat)}
    (blaming : Cursor.Blaming ⟨tokens.body, tokens.ending, arena, #[]⟩ later blamed) :
    BlamedOnce tokens later.faults.toList := by
  refine ⟨blamed.map fun entry => (entry.1, tokens.body.length - entry.2), ?_, ?_, ?_⟩
  · rw [List.map_map, blaming.added]
    rfl
  · rw [List.forall_mem_map]
    intro entry member
    obtain ⟨cause, same⟩ := blaming.blames entry member
    exact ⟨cause, _, getElem?_toList_sub tokens arena (blaming.before entry member), same⟩
  · rw [List.pairwise_map]
    refine blaming.once.imp_of_mem fun {entry other} member next once same => ?_
    have first : entry.2 ≤ tokens.body.length := blaming.before entry member
    have second : other.2 ≤ tokens.body.length := blaming.before other next
    dsimp only at same ⊢
    omega

/-- No token before the end is blamed by two faults of a program. -/
theorem readProgram_blamedOnce
    {tokens : Token.Sequence}
    (closed : tokens.ending.kind = .endOfInput)
    (arena : Arena) :
    BlamedOnce tokens (readProgram tokens arena).faults := by
  obtain ⟨blamed, blaming⟩ : ∃ blamed, Cursor.Blaming ⟨tokens.body, tokens.ending, arena, #[]⟩
      (readDeclarations tokens arena).2 blamed :=
    blaming_declarationsBefore (blamesOnce_readWithin _) none _ #[] _
  rw [readProgram_eq closed arena]
  exact blaming.blamedOnce

/-- Every list of tokens with an end of the input is read up to the first one. Nothing
behind it is seen, and the bounds on levels and rounds are never used up. However a
phrase or a list of declarations is read, the cursor is not moved back, and a declaration
takes a token also when it is lost. No token before the end is blamed by two faults. -/
theorem readProgram_reaches_end
    {all : List Token}
    (ends : ∃ token ∈ all, token.kind = .endOfInput)
    (arena : Arena) :
    let tokens := Token.Sequence.ofList all
    let start : Cursor := ⟨tokens.body, tokens.ending, arena, #[]⟩
    ((∃ behind, all = tokens.toList ++ behind) ∧
      (∀ token ∈ tokens.body, token.kind ≠ .endOfInput) ∧ tokens.ending.kind = .endOfInput ∧
      ∀ others, Token.Sequence.ofList (tokens.toList ++ others) = tokens) ∧
    (∃ root last, start.Onward last ∧ last.rest = [] ∧
      readProgram tokens arena = ⟨root, last.arena, last.faults.toList⟩ ∧
      ∀ count, tokens.body.length ≤ count → program count start = (root, last)) ∧
    (∀ (cursor : Cursor) (count : Nat), start.Onward cursor →
      (∀ phrase : Phrase, cursor.Onward (cursorAfter (phrase.readWithin count cursor))) ∧
      (∀ closing remaining found, cursor.Onward
        (declarationsBefore (Phrase.readWithin count) closing remaining found cursor).2) ∧
      cursor.Onward (declaration (Phrase.readWithin count) cursor).2 ∧
      (cursor.rest ≠ [] → (declaration (Phrase.readWithin count) cursor).2.rest.length <
        cursor.rest.length)) ∧
    BlamedOnce tokens (readProgram tokens arena).faults := by
  intro tokens start
  have inside := Token.Sequence.ofList_body_kind all
  have closed := Token.Sequence.ofList_ending_kind all
  have read := readProgram_eq closed arena
  refine ⟨⟨Token.Sequence.exists_eq_append ends, inside, closed,
    Token.Sequence.ofList_append inside closed⟩, ?_, fun cursor count later => ?_, ?_⟩
  · refine ⟨_, _, (onward_readDeclarations arena).trans (onward_addNode _ _),
      readDeclarations_rest closed arena, read, fun count ample => ?_⟩
    exact program_eq_of_ample closed ample arena
  · have phrases := onward_readWithin count
    have closedCursor : cursor.ending.kind = .endOfInput := later.ending ▸ closed
    exact ⟨fun phrase => phrases phrase cursor,
      fun closing remaining found =>
        onward_declarationsBefore phrases closing remaining found cursor,
      onward_declaration phrases cursor,
      declaration_shorter phrases (takes_readWithin count) closedCursor⟩
  · exact readProgram_blamedOnce closed arena

/-- A block that is never closed, with a statement that lacks its value, before an end of the
input that is not the last token. -/
theorem readProgram_reaches_end_of_unclosed :
    let brace := Token.placeless .leftBrace "\x7b"
    let word := Token.placeless (.keyword .echoWord) "echo"
    let semicolon := Token.placeless .semicolon ";"
    let ending := Token.placeless .endOfInput ""
    let tokens : Token.Sequence := ⟨[brace, word, semicolon], ending⟩
    (∃ token ∈ [brace, word, semicolon, ending, word], token.kind = .endOfInput) ∧
      Token.Sequence.ofList [brace, word, semicolon, ending, word] = tokens ∧
      (readProgram tokens .empty).faults.length = 2 ∧
      BlamedOnce tokens (readProgram tokens .empty).faults := by
  intro brace word semicolon ending tokens
  have ends : ∃ token ∈ [brace, word, semicolon, ending, word], token.kind = .endOfInput :=
    ⟨ending, by simp, rfl⟩
  have upToEnd : Token.Sequence.ofList [brace, word, semicolon, ending, word] = tokens := rfl
  obtain ⟨-, -, -, blamedOnce⟩ := readProgram_reaches_end ends .empty
  rw [upToEnd] at blamedOnce
  exact ⟨ends, upToEnd, by decide +kernel, blamedOnce⟩

end Tree
end Scripting
