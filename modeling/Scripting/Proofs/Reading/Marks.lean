import Scripting.Evaluation
import Scripting.Proofs.Reading.LineBreaks
import Scripting.Proofs.Reading.Progress
import Scripting.Proofs.Reading.Stages

/-!
# The marks under faults of a source

Every fault that is found while a source is read shows the line on which it lies, if there is
such a line: the end of the input can come after the last one.  In that line the mark stands
under the first character of what is blamed, a token or a character with which none begins.

Main statement: `Machine.readSource_marks`.
-/

namespace Scripting

open Token (spanAfter lineAfter columnAfter blanks)

/-- What a fault that is found in a source is blamed on. -/
inductive Fault.IsFoundIn (fault : Fault) (source : String) : Prop
  | stray {before after : List Char} {c : Char} :
      source.toList = before ++ c :: after → c ∉ blanks →
      fault.cause = .unexpectedCharacter c → fault.span = some (spanAfter before [c]) →
      fault.lexeme = none → IsFoundIn fault source
  | token {token : Token} :
      token ∈ (tokensOf source).body → (∀ c, fault.cause ≠ .unexpectedCharacter c) →
      fault.span = some token.span → fault.lexeme = some token.lexeme → IsFoundIn fault source
  | ending :
      (∀ c, fault.cause ≠ .unexpectedCharacter c) →
      fault.span = some (spanAfter source.toList []) → fault.lexeme = none →
      IsFoundIn fault source

/-- The end of the input is behind all characters of a source. -/
theorem ending_span (source : String) :
    (tokensOf source).ending.span = spanAfter source.toList [] := by
  have place := Token.Position.spanTo_afterAll source.toList []
  rwa [Token.Position.afterAll_nil, ← Token.Scan.ofText_position] at place

namespace Fault.IsFoundIn

variable {fault : Fault} {source : String}

theorem of_lexical (member : fault ∈ (Token.Scan.ofSource source).faults.toList) :
    fault.IsFoundIn source ∧ fault.sourceLine = none := by
  have accounts := Token.Scan.ofText_accounts source.toList
  rw [Token.Scan.ofSource, accounts.faults, List.mem_filterMap] at member
  obtain ⟨stretch, inside, isFault⟩ := member
  obtain ⟨front, back, whole, -, span, -, isRole⟩ := accounts.fit.exists_fitsBetween inside
  have isSource : source.toList = front ++ stretch.text ++ back := accounts.whole.symm.trans whole
  cases role : stretch.role with
  | stray found =>
      simp only [Token.Stretch.fault?, role, Option.some.injEq] at isFault
      simp only [role, isFault] at isRole
      obtain ⟨c, text, visible, -, rfl⟩ := isRole
      rw [text] at span isSource
      exact ⟨.stray (by simpa using isSource) visible rfl (congrArg some span) rfl, rfl⟩
  | unclosed found =>
      simp only [Token.Stretch.fault?, role, Option.some.injEq] at isFault
      simp only [role, isFault] at isRole
      obtain ⟨body, -, -, rfl, rfl⟩ := isRole
      rw [List.append_nil] at isSource
      exact ⟨.ending (fun _ => Cause.noConfusion) (by rw [isSource]; rfl) rfl, rfl⟩
  | token _ | blank | comment => simp [Token.Stretch.fault?, role] at isFault

theorem of_structural (member : fault ∈ (Tree.readProgram (tokensOf source) .empty).faults) :
    fault.IsFoundIn source ∧ fault.sourceLine = none := by
  have stage := structural_faults_staged source _ (List.mem_map_of_mem member)
  have noCharacter : ∀ c, fault.cause ≠ .unexpectedCharacter c := by
    intro c isStray
    rw [Fault.stage, Fault.withSource_cause, isStray] at stage
    contradiction
  have closed : (tokensOf source).ending.kind = .endOfInput := rfl
  obtain ⟨blamed, faults, blames, -⟩ := Tree.readProgram_blamedOnce closed .empty
  rw [← faults] at member
  obtain ⟨entry, inside, rfl⟩ := List.mem_map.mp member
  obtain ⟨cause, token, found, same⟩ := blames entry inside
  rw [same] at noCharacter ⊢
  obtain isToken | isEnding := List.mem_append.mp (List.mem_of_getElem? found)
  · obtain ⟨-, -, -, -, -, kind, -⟩ :=
      (Token.Scan.ofText_accounts source.toList).exists_token isToken
    exact ⟨.token isToken noCharacter rfl (if_neg kind), rfl⟩
  · obtain rfl := List.mem_singleton.mp isEnding
    exact ⟨.ending noCharacter (congrArg some (ending_span source)) rfl, rfl⟩

end Fault.IsFoundIn

/-! ## What is shown -/

/-- The characters are those that stand in the line behind so many others. -/
def Text.StandsBehind (offset : Nat) (text : List Char) (line : String) : Prop :=
  text <+: line.toList.drop offset

theorem Text.standsBehind_append
    {front text : List Char}
    (after : List Char)
    {offset : Nat}
    (length : front.length = offset) :
    StandsBehind offset text (String.ofList (front ++ (text ++ after))) := by
  rw [StandsBehind, String.toList_ofList, ← length, List.drop_left]
  exact List.prefix_append text after

namespace Fault.IsFoundIn

variable {fault : Fault} {source : String}

/-- The place of a fault in its line: behind newlines and behind characters of the line. -/
theorem exists_span (found : fault.IsFoundIn source) :
    ∃ span, fault.span = some span ∧ 0 < span.line ∧ 0 < span.column := by
  have counted (before text : List Char) :
      0 < (spanAfter before text).line ∧ 0 < (spanAfter before text).column :=
    ⟨Nat.add_pos_left Nat.one_pos _, Nat.add_pos_left Nat.one_pos _⟩
  cases found with
  | stray _ _ _ span => exact ⟨_, span, counted _ _⟩
  | ending _ span => exact ⟨_, span, counted _ _⟩
  | token member _ span =>
      obtain ⟨before, text, -, -, -, -, -, place⟩ :=
        (Token.Scan.ofText_accounts source.toList).exists_token member
      exact ⟨_, span, place ▸ counted before text⟩

/-- A token that is blamed stands in the line of the fault, up to its first line break. -/
theorem standsBehind_of_lexeme
    (found : fault.IsFoundIn source)
    {span : Token.Span}
    (placed : fault.span = some span)
    {line lexeme : String}
    (isLine : Text.line? source span.line = some line)
    (blamed : fault.lexeme = some lexeme) :
    ∃ shown, Text.IsFirstLine shown lexeme.toList ∧
      Text.StandsBehind (span.column - 1) shown line := by
  cases found with
  | stray _ _ _ _ none => cases none.symm.trans blamed
  | ending _ _ none => cases none.symm.trans blamed
  | @token token member _ tokenSpan tokenLexeme =>
      obtain rfl := Option.some.inj (tokenSpan.symm.trans placed)
      obtain rfl := Option.some.inj (tokenLexeme.symm.trans blamed)
      obtain ⟨other, starts⟩ := Token.exists_startsOn member
      obtain rfl := Option.some.inj (starts.isLine.symm.trans isLine)
      obtain ⟨front, back, rfl, column⟩ := starts.holds
      refine ⟨_, Text.isFirstLine_firstLine ?_, ?_⟩
      · intro empty
        exact starts.nonempty (by rw [empty]; rfl)
      · rw [List.append_assoc]
        exact Text.standsBehind_append back (Nat.eq_sub_of_add_eq column)

/-- A character that is reported stands in the line of the fault. -/
theorem standsBehind_of_character
    (found : fault.IsFoundIn source)
    {span : Token.Span}
    (placed : fault.span = some span)
    {line : String}
    (isLine : Text.line? source span.line = some line)
    {c : Char}
    (reported : fault.cause = .unexpectedCharacter c) :
    Text.StandsBehind (span.column - 1) [c] line := by
  cases found with
  | token _ other => exact absurd reported (other c)
  | ending other => exact absurd reported (other c)
  | @stray before after d whole visible cause place =>
      obtain rfl := Cause.unexpectedCharacter.inj (cause.symm.trans reported)
      obtain rfl := Option.some.inj (place.symm.trans placed)
      have noNewline : d ≠ '\n' := by
        rintro rfl
        exact visible (by decide)
      have noReturn : d ≠ '\r' := by
        rintro rfl
        exact visible (by decide)
      obtain ⟨front, column, isLast⟩ := Token.exists_line_after before noNewline after
      have shown : Text.firstLine [d] = [d] :=
        Text.firstLine_of_notMem (by simpa using Ne.symm noNewline)
      obtain ⟨back, first⟩ : [d] <+: Text.firstLine (d :: after) :=
        shown ▸ Text.firstLine_prefix (by simpa using noReturn) after
      have counted : (spanAfter before [d]).line ≠ 0 :=
        Nat.ne_of_gt (Nat.add_pos_left Nat.one_pos _)
      rw [Text.line?, if_neg counted, whole] at isLine
      obtain rfl := Option.some.inj ((congrArg (Option.map String.ofList) isLast).symm.trans isLine)
      rw [← first]
      exact Text.standsBehind_append back (Nat.eq_sub_of_add_eq column)

end Fault.IsFoundIn

/-- A fault that is found while a source is read shows its line of the source, which is the one
behind as many newlines as its line number says, without its line break, and it shows none
only if there is none. In this line stands what is blamed, in the column of the fault: a token
up to its first line break, or a character with which no token begins. The line is the last of
the rendered text but for the mark below, in the column of the fault. -/
theorem Machine.readSource_marks (machine : Machine) (source : String) :
    ∀ fault ∈ (machine.readSource source).1.2, ∃ span newlines offset,
      fault.span = some span ∧ span.line = newlines + 1 ∧ span.column = offset + 1 ∧
        (∀ line, fault.sourceLine = some line ↔
          Text.IsLineBehind newlines line.toList source.toList) ∧
        ∀ line, fault.sourceLine = some line →
          (∀ lexeme, fault.lexeme = some lexeme →
            ∃ shown, Text.IsFirstLine shown lexeme.toList ∧ Text.StandsBehind offset shown line) ∧
          (∀ c, fault.cause = .unexpectedCharacter c → Text.StandsBehind offset [c] line) ∧
          fault.text =
            { fault with sourceLine := none }.text ++ Fault.excerpt line span.column := by
  intro fault member
  rw [readSource_faults] at member
  obtain ⟨bare, inside, rfl⟩ := List.mem_map.mp member
  obtain ⟨found, unshown⟩ : bare.IsFoundIn source ∧ bare.sourceLine = none :=
    (List.mem_append.mp inside).elim Fault.IsFoundIn.of_lexical Fault.IsFoundIn.of_structural
  obtain ⟨span, placed, line, column⟩ := found.exists_span
  have shows := Fault.sourceLine_withSource unshown source
  rw [placed, Option.bind_some] at shows
  refine ⟨span, span.line - 1, span.column - 1, ?_, by omega, by omega, fun text => ?_,
    fun text isShown => ⟨fun lexeme blamed => ?_, fun c reported => ?_, ?_⟩⟩
  · rw [Fault.withSource_span, placed]
  · rw [shows, Text.line?_eq_some_iff line]
  · exact found.standsBehind_of_lexeme placed (shows.symm.trans isShown)
      ((bare.withSource_lexeme source).symm.trans blamed)
  · exact found.standsBehind_of_character placed (shows.symm.trans isShown)
      ((bare.withSource_cause source).symm.trans reported)
  · exact Fault.text_of_sourceLine ((bare.withSource_span source).trans placed) isShown

/-- A quoted text of two lines is shown up to the end of the first one, and what is missed at the
end of the input after the last newline is shown without a line. -/
theorem Machine.readSource_marks_of_two_lines :
    let source := "echo 1 \"a\r\nb\";\n\"open\n"
    let machine := Machine.bare (.ofFiles ⟨[]⟩ [])
    let faults := (machine.readSource source).1.2
    let fault := faults.getLastD default
    faults.map Fault.text =
        ["[line 4:1] Error: unterminated string",
          "[line 1:8] Error at '\"a\r\nb\"': expected ';' after value\n" ++
          "  | echo 1 \"a\n" ++
          "  |        ^"] ∧
      fault ∈ faults ∧ fault.lexeme = some "\"a\r\nb\"" ∧ fault.sourceLine = some "echo 1 \"a" ∧
      ∃ shown, Text.IsFirstLine shown "\"a\r\nb\"".toList ∧
        Text.StandsBehind 7 shown "echo 1 \"a" := by
  intro source machine faults fault
  have member : fault ∈ faults := by decide +kernel
  have lexeme : fault.lexeme = some "\"a\r\nb\"" := by decide +kernel
  have shown : fault.sourceLine = some "echo 1 \"a" := by decide +kernel
  have place : fault.span = some ⟨7, 13, 1, 8⟩ := by decide +kernel
  obtain ⟨span, _, offset, placed, -, column, -, marks⟩ :=
    Machine.readSource_marks machine source fault member
  obtain rfl := Option.some.inj (placed.symm.trans place)
  obtain rfl : 7 = offset := Nat.succ.inj column
  exact ⟨by decide +kernel, member, lexeme, shown, (marks _ shown).1 _ lexeme⟩

end Scripting
