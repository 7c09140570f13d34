import Scripting.Proofs.Decimal.Numerals
import Scripting.Proofs.Meaning.Nodes
import Scripting.Proofs.Reading.Lexemes
import Scripting.Proofs.Running.TopLevel
import Scripting.Proofs.Sessions.Runs

/-!
# Echoed literals

A number that stands in a source is read from digits, however many, so what is shown of it is
the text of the nearest double.  Where this double is finite, the text is one number again,
which stands for the same double, and has neither an exponent nor zeros at the end of a
fraction.  Where the digits lead beyond the finite doubles, the text is a word.

Main statements: `Session.run_echo`, `Session.echoes_literals`.
-/

namespace Scripting

open Decimal (IsNumeral)

/-! ## Numerals in a source -/

namespace Token

open Piece (fraction?)

variable {text whole fraction after : List Char}

/-- The text of a number is a numeral for it. -/
theorem Lexeme.exists_isNumeral
    {kind : Kind}
    {literal : Option Literal}
    (lexeme : Lexeme kind literal text)
    (isNumber : kind = .number) :
    ∃ whole fraction, IsNumeral text whole fraction ∧
      literal = some (.number (Decimal.ofDigits whole fraction)) := by
  cases lexeme with
  | sign isSign =>
      subst isNumber
      simp [signs] at isSign
  | text => cases isNumber
  | whole nonempty isDigit =>
      exact ⟨text, [], ⟨by simp [Decimal.pointed], nonempty, isDigit, Decimal.areDigits_zeros 0⟩,
        rfl⟩
  | @fraction digits decimals nonempty isDigit someDecimals isDecimal =>
      exact ⟨digits, decimals,
        ⟨by rw [Decimal.pointed, if_neg someDecimals], nonempty, isDigit, isDecimal⟩, rfl⟩
  | keyword => cases isNumber
  | name => cases isNumber

/-- A numeral is read as its number when neither a digit nor a fraction comes after it. -/
theorem ofText_numeral
    (isNumeral : IsNumeral text whole fraction)
    (stops : ∀ c ∈ after.head?, c.isDigit = false)
    (noFraction : fraction? after = none) :
    Piece.ofText (text ++ after) =
      .lexeme .number (some (.number (Decimal.ofDigits whole fraction))) text ::
        Piece.ofText after := by
  obtain ⟨spelled, nonempty, isDigit, isDecimal⟩ := isNumeral
  have read : Piece.numeral (text ++ after) =
      (.lexeme .number (some (.number (Decimal.ofDigits whole fraction))) text, after) := by
    rw [Decimal.pointed] at spelled
    split at spelled
    next isEmpty =>
        obtain rfl : text = whole := by simpa using spelled
        obtain rfl := isEmpty
        exact numeral_of_whole isDigit stops noFraction
    next someDecimals =>
        obtain rfl := spelled
        exact numeral_of_fraction isDigit isDecimal someDecimals stops
  obtain ⟨c, digits, rfl⟩ := List.exists_cons_of_ne_nil nonempty
  obtain rfl := spelled
  rw [List.cons_append, List.cons_append] at read ⊢
  rw [Piece.ofText_cons, next_of_isDigit (isDigit c List.mem_cons_self), read]

theorem IsReadAs.numeral
    {tokens : List Token}
    (isRead : IsReadAs after tokens)
    (isNumeral : IsNumeral text whole fraction)
    (stops : ∀ c ∈ after.head?, c.isDigit = false)
    (noFraction : fraction? after = none) :
    IsReadAs (text ++ after)
      (⟨.number, String.ofList text, some (.number (Decimal.ofDigits whole fraction)),
        .nowhere⟩ :: tokens) := by
  obtain ⟨sound, same⟩ := isRead
  rw [IsReadAs, ofText_numeral isNumeral stops noFraction, List.filterMap_cons, same]
  exact ⟨List.forall_mem_cons.mpr ⟨rfl, sound⟩, rfl⟩

/-- A source is scanned as it is read. -/
theorem IsReadAs.ofSource
    {source : String}
    {tokens : List Token}
    (isRead : IsReadAs source.toList tokens) :
    (Scan.ofSource source).faults = #[] ∧
      (Scan.ofSource source).tokens.toList.map unplaced = tokens :=
  ⟨(Scan.ofText_faults _).mpr isRead.1, (Scan.ofText_tokens_unplaced _).trans isRead.2⟩

end Token

/-! ## Echoing a literal -/

/-- The statement that echoes a literal. -/
def echoOf (literal : String) : String :=
  "echo " ++ literal ++ ";"

/-- The tokens of the statement are those of its three parts. -/
theorem isReadAs_echoOf
    {literal : String}
    {whole fraction : List Char}
    (isNumeral : IsNumeral literal.toList whole fraction) :
    Token.IsReadAs (echoOf literal).toList
      [.placeless (.keyword .echoWord) "echo",
        ⟨.number, literal, some (.number (Decimal.ofDigits whole fraction)), .nowhere⟩,
        .placeless .semicolon ";"] := by
  have semicolon : Token.IsReadAs [';'] [.placeless .semicolon ";"] :=
    @Token.IsReadAs.token [] [] .nil .nil (.placeless .semicolon ";") (.symbol rfl)
  have number := semicolon.numeral isNumeral (by simp [Char.isDigit]) rfl
  have spaced := number.blank (c := ' ') rfl
  have statement := @Token.IsReadAs.token _ _ spaced (.of_separator rfl _)
    (.placeless (.keyword .echoWord) "echo") (Token.Lexeme.spelled_keyword .echoWord)
  rw [String.ofList_toList] at statement
  have spelled : (echoOf literal).toList = "echo".toList ++ ' ' :: (literal.toList ++ [';']) := by
    simp [echoOf]
  rw [spelled]
  exact statement

/-- The word that stands for infinity is read as a name. -/
theorem isReadAs_inf : Token.IsReadAs "inf".toList [.placeless .identifier "inf"] := by
  have isName : Token.Lexeme .identifier none ['i', 'n', 'f'] :=
    .name (.inl rfl)
      (List.forall_mem_cons.mpr ⟨.inl rfl, List.forall_mem_singleton.mpr (.inl rfl)⟩)
      fun word => by cases word <;> decide
  have spelled : "inf".toList = ['i', 'n', 'f'] := by decide
  rw [← spelled] at isName
  have read := @Token.IsReadAs.token [] [] .nil .nil (.placeless .identifier "inf") isName.spelled
  rwa [List.append_nil] at read

section Statement

open Scripting.Tree (Expression Statement)

/-- The tokens are one statement, which echoes the value of the literal. -/
theorem exists_echo_of_isReadAs
    {source lexeme : String}
    {value : Float}
    (isRead : Token.IsReadAs source.toList
      [.placeless (.keyword .echoWord) "echo", ⟨.number, lexeme, some (.number value), .nowhere⟩,
        .placeless .semicolon ";"]) :
    ∃ keyword number, Statement.Derives .declarations (tokensOf source).body []
      [.echo keyword (.constant number (.number value))] := by
  obtain ⟨-, same⟩ := isRead.ofSource
  change (tokensOf source).body.map Token.unplaced = _ at same
  obtain ⟨keyword, others, body, isKeyword, same⟩ := List.map_eq_cons_iff.mp same
  obtain ⟨number, others, rfl, isNumber, same⟩ := List.map_eq_cons_iff.mp same
  obtain ⟨semicolon, others, rfl, isSemicolon, same⟩ := List.map_eq_cons_iff.mp same
  obtain rfl := List.map_eq_nil_iff.mp same
  have keywordKind : keyword.kind = .keyword .echoWord := congrArg Token.kind isKeyword
  have numberKind : number.kind = .number := congrArg Token.kind isNumber
  have literal : number.literal = some (.number value) := congrArg Token.literal isNumber
  have semicolonKind : semicolon.kind = .semicolon := congrArg Token.kind isSemicolon
  have constant : Expression.Derives .primary [number, semicolon] [semicolon]
      (.constant number (.number value)) :=
    .constant (.literal (.inl numberKind) literal)
  have operand : Expression.Derives (.operation []) [number, semicolon] [semicolon]
      (.constant number (.number value)) := .operand (.unsigned (.simple constant))
  refine ⟨keyword, number, ?_⟩
  rw [body]
  exact .next (.plain (.echo keywordKind
    (.operation (.tighter (.tighter (.tighter (.tighter (.tighter (.tighter operand)))))))
    semicolonKind)) .done

/-- Where an echoed constant stands, its text is written. -/
theorem execute_echo
    {machine : Machine}
    {id : Option Tree.NodeId}
    {keyword number : Token}
    {constant : Tree.Constant}
    (stands : (Statement.echo keyword (.constant number constant)).rose.StandsAt machine.arena id)
    (accepting : machine.host.sink = .accepting)
    (bound : Nat) :
    (Run.within (bound + 2)).execute id machine = .ok .normal
      { machine with
        host := machine.host.append (machine.store.text (.ofConstant constant) ++ "\n") } := by
  obtain ⟨below, standsBelow, steps⟩ :=
    Meaning.executeNode_echo (Run.within (bound + 1)) stands
  have value : (Run.within (bound + 1)).evaluate below machine =
      .ok (.ofConstant constant) machine :=
    (Meaning.evaluate_succ bound below machine).trans
      (Meaning.evaluateNode_constant (Run.within bound) standsBelow)
  have written : Run.write (machine.store.text (.ofConstant constant) ++ "\n") keyword machine =
      .ok () { machine with
        host := machine.host.append (machine.store.text (.ofConstant constant) ++ "\n") } := by
    unfold Run.write
    rw [accepting]
  rw [Meaning.execute_succ, steps, Run.bind_of_ok value]
  exact Run.bind_of_ok written

/-- A program that is one echoed constant writes its text and ends. -/
theorem interpret_echo
    {machine : Machine}
    {root : Tree.NodeId}
    {ending keyword number : Token}
    {constant : Tree.Constant}
    (stands : (Tree.programRose ending [.echo keyword (.constant number constant)]).StandsAt
      machine.arena (some root))
    (accepting : machine.host.sink = .accepting) :
    Run.interpret root machine = .ok ()
      { machine with
        host := machine.host.append (machine.store.text (.ofConstant constant) ++ "\n") } := by
  let entered := { machine with scope := Scope.global, base := machine.depth }
  have standsEntered :
      (Tree.programRose ending [.echo keyword (.constant number constant)]).StandsAt
        entered.arena (some root) := stands
  obtain ⟨ids, below, steps⟩ :=
    Meaning.executeNode_program (Run.within (Run.ample - 3 + 2)) standsEntered
  rw [Tree.Statement.roses_cons, Tree.Statement.roses_nil, Tree.Rose.allStandAt_singleton] at below
  obtain ⟨id, rfl, standsBelow⟩ := below
  have echo := execute_echo standsBelow accepting (Run.ample - 3)
  have program : (Run.within Run.ample).execute (some root) entered = .ok .normal
      { entered with
        host := machine.host.append (machine.store.text (.ofConstant constant) ++ "\n") } := by
    rw [show Run.ample = Run.ample - 3 + 2 + 1 from rfl, Meaning.execute_succ, steps,
      Steps.executeAll, Run.bind_of_ok echo]
    rfl
  rw [Run.interpret, Run.interpretWith_eq, program, Run.leave, Run.flush, Host.flush, Host.append,
    accepting]

end Statement

namespace Session

/-- A literal that is echoed shows the text of its value on a line of its own. -/
theorem run_echo
    {session : Session}
    (accepting : session.machine.host.sink = .accepting)
    {literal : String}
    {whole fraction : List Char}
    (isNumeral : IsNumeral literal.toList whole fraction) :
    (session.run (echoOf literal)).1 = .done [] ∧
      (session.run (echoOf literal)).2.output =
        session.output ++ Decimal.text (Decimal.ofDigits whole fraction) ++ "\n" := by
  have isRead := isReadAs_echoOf isNumeral
  generalize Decimal.ofDigits whole fraction = value at *
  obtain ⟨keyword, number, derivation⟩ := exists_echo_of_isReadAs isRead
  let read := session.machine.readSource (echoOf literal)
  obtain ⟨faultless, -, stands⟩ := Tree.readProgram_of_derives (tokensOf (echoOf literal))
    derivation (by simp [Tree.Statement.ElseNearest]) session.machine.arena
  have standsRead : (Tree.programRose (tokensOf (echoOf literal)).ending
      [.echo keyword (.constant number (.number value))]).StandsAt read.2.arena
        (some read.1.1) := stands
  have acceptingRead : read.2.host.sink = .accepting := accepting
  have accepted : faultsOf (echoOf literal) = [] :=
    List.isEmpty_iff.mp (accepts_of_faultless isRead.ofSource.1 faultless)
  obtain ⟨report, machine⟩ := session.run_of_faultless accepted
  rw [interpret_echo standsRead acceptingRead] at report machine
  refine ⟨report, ?_⟩
  rw [output, machine]
  exact (String.append_assoc ..).symm

/-- Every literal of a source can be echoed, and what is shown is the text of its value.  The
text of a finite value is a numeral, digits with a point only before more digits, of which the
last is no zero, and is read as one number with this value.  The other literals, which lead
beyond the finite doubles, are all shown as one word, which is read as a name. -/
theorem echoes_literals
    {session : Session}
    (accepting : session.machine.host.sink = .accepting)
    {source : String}
    {token : Token}
    (isToken : token ∈ (Token.Scan.ofSource source).tokens.toList)
    (isNumber : token.kind = .number) :
    ∃ value, token.literal = some (.number value) ∧
      let echoed := session.run (echoOf token.lexeme)
      let text := Decimal.text value
      let again := Token.Scan.ofSource text
      echoed.1 = .done [] ∧ echoed.2.output = session.output ++ text ++ "\n" ∧
      again.faults = #[] ∧
      (value.isFinite = true →
        again.tokens.toList.map Token.unplaced = [⟨.number, text, some (.number value), .nowhere⟩] ∧
        ∃ whole fraction, IsNumeral text.toList whole fraction ∧ fraction.getLast? ≠ some '0') ∧
      (value.isFinite = false → text = "inf" ∧
        again.tokens.toList.map Token.unplaced = [.placeless .identifier "inf"]) := by
  obtain ⟨whole, fraction, isNumeral, literal⟩ := Token.Lexeme.exists_isNumeral
    (Token.Lexeme.iff_spelled.mpr (Token.Scan.spelled_of_mem_tokens isToken)) isNumber
  obtain ⟨report, output⟩ := run_echo accepting isNumeral
  refine ⟨Decimal.ofDigits whole fraction, literal, report, output, ?_⟩
  obtain unsigned | infinite := Decimal.isUnsigned_ofDigits_or whole fraction
  · obtain ⟨shownWhole, shownFraction, shown, same⟩ := Decimal.exists_numeral_text unsigned
    have isRead := Token.IsReadAs.nil.numeral shown (by simp) rfl
    rw [List.append_nil, String.ofList_toList, same] at isRead
    obtain ⟨faultless, tokens⟩ := isRead.ofSource
    refine ⟨faultless, fun _ => ⟨tokens, shownWhole, shownFraction, shown,
      Decimal.fraction_not_padded unsigned shown⟩, fun notFinite => ?_⟩
    rw [unsigned.isFinite] at notFinite
    contradiction
  · rw [infinite, Decimal.text_infinity]
    obtain ⟨faultless, tokens⟩ := isReadAs_inf.ofSource
    refine ⟨faultless, fun finite => ?_, fun _ => ⟨rfl, tokens⟩⟩
    rw [Decimal.isFinite_ofPattern_infinityBits] at finite
    contradiction

/-- The zeros at the end of a fraction are not shown. -/
theorem echoes_literals_of_zeros :
    let session := ofSettings .standard (.ofFiles ⟨[]⟩ [])
    session.machine.host.sink = .accepting ∧
      ∃ token ∈ (Token.Scan.ofSource "3.1400").tokens.toList, token.kind = .number ∧
        token.lexeme = "3.1400" ∧ (session.run (echoOf token.lexeme)).2.output = "3.14\n" ∧
        (Token.Scan.ofSource "3.14").tokens.toList.map Token.literal = [token.literal] := by
  intro session
  have accepting : session.machine.host.sink = .accepting := by decide +kernel
  have isNumeral : IsNumeral "3.1400".toList ['3'] ['1', '4', '0', '0'] :=
    ⟨by decide, by decide, by simp [Decimal.AreDigits], by simp [Decimal.AreDigits]⟩
  have isRead := Token.IsReadAs.nil.numeral isNumeral (by simp) rfl
  rw [List.append_nil] at isRead
  obtain ⟨token, tokens, same, isToken, -⟩ := List.map_eq_cons_iff.mp isRead.ofSource.2
  have isNumber : token.kind = .number := congrArg Token.kind isToken
  have lexeme : token.lexeme = "3.1400" := congrArg Token.lexeme isToken
  have member : token ∈ (Token.Scan.ofSource "3.1400").tokens.toList := by simp [same]
  obtain ⟨value, literal, -, output, -, shown, -⟩ := echoes_literals accepting member isNumber
  obtain rfl : value = Decimal.ofDigits ['3'] ['1', '4', '0', '0'] :=
    Token.Literal.number.inj
      (Option.some.inj (literal.symm.trans (congrArg Token.literal isToken)))
  have finite : (Decimal.ofDigits ['3'] ['1', '4', '0', '0']).isFinite = true := by decide +kernel
  have text : Decimal.text (Decimal.ofDigits ['3'] ['1', '4', '0', '0']) = "3.14" := by
    decide +kernel
  rw [text] at output shown
  refine ⟨accepting, token, member, isNumber, lexeme, output, ?_⟩
  have literals := congrArg (List.map Token.literal) (shown finite).1
  rw [List.map_map] at literals
  rw [literal]
  exact literals

/-- A literal that is greater than all finite doubles is not shown as a number. -/
theorem echoes_word_for_literal :
    let session := ofSettings .standard (.ofFiles ⟨[]⟩ [])
    let literal := String.ofList ('2' :: List.replicate 308 '0' ++ ['.', '0'])
    (Token.Scan.ofSource literal).faults = #[] ∧
      (Token.Scan.ofSource literal).tokens.toList.map Token.kind = [.number] ∧
      (session.run (echoOf literal)).1 = .done [] ∧
      (session.run (echoOf literal)).2.output = "inf\n" ∧
      (Token.Scan.ofSource "inf").tokens.toList.map Token.kind = [.identifier] := by
  intro session literal
  have accepting : session.machine.host.sink = .accepting := by decide +kernel
  have isNumeral : IsNumeral literal.toList ('2' :: List.replicate 308 '0') ['0'] :=
    ⟨String.toList_ofList, List.cons_ne_nil _ _,
      List.forall_mem_cons.mpr ⟨rfl, Decimal.areDigits_zeros 308⟩, Decimal.areDigits_zeros 1⟩
  have infinite : Decimal.ofDigits ('2' :: List.replicate 308 '0') ['0'] =
      Decimal.ofPattern Decimal.infinityBits :=
    congrArg Decimal.ofPattern (by decide +kernel)
  have isRead := Token.IsReadAs.nil.numeral isNumeral (by simp) rfl
  rw [List.append_nil] at isRead
  obtain ⟨faultless, tokens⟩ := isRead.ofSource
  obtain ⟨report, output⟩ := run_echo accepting isNumeral
  have empty : session.output = "" := by decide +kernel
  rw [infinite, Decimal.text_infinity, empty] at output
  refine ⟨faultless, ?_, report, output, ?_⟩
  · have kinds := congrArg (List.map Token.kind) tokens
    rwa [List.map_map] at kinds
  · have kinds := congrArg (List.map Token.kind) isReadAs_inf.ofSource.2
    rwa [List.map_map] at kinds

end Session
end Scripting
