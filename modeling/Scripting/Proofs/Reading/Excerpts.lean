import Scripting.Proofs.Reading.Sources
import Scripting.Proofs.Reading.Spellings

/-!
# The lines on which tokens start

The place of a token counts the newlines before it, and the characters since the last one.
So its text stands in the line with that number from that column on, up to the end of the
line, where it may go on in further ones.

Main statements: `Token.exists_line_after`, `Token.exists_startsOn`.
-/

namespace Scripting

namespace Text

/-- The first line of a text, without its end. -/
def firstLine (text : List Char) : List Char :=
  (lines text).headD []

/-- A line of a text, without its end. The first one has the number one. -/
def line? (text : String) (number : Nat) : Option String :=
  if number = 0 then none else ((lines text.toList)[number - 1]?).map String.ofList

variable {text front : List Char}

/-! ## Lines -/

/-- A text has no newline, or a first one. -/
theorem notMem_or_exists_newline (text : List Char) :
    '\n' ∉ text ∨ ∃ front rest, text = front ++ '\n' :: rest ∧ '\n' ∉ front := by
  by_cases newline : '\n' ∈ text
  · exact .inr (List.eq_append_cons_of_mem newline)
  · exact .inl newline

theorem newlineStretches_cons (c : Char) (rest : List Char) :
    newlineStretches (c :: rest) =
      if c = '\n' then [] :: newlineStretches rest
      else match newlineStretches rest with
        | [] => [[c]]
        | stretch :: others => (c :: stretch) :: others :=
  rfl

theorem newlineStretches_of_notMem (oneLine : '\n' ∉ text) : newlineStretches text = [text] := by
  induction text with
  | nil => rfl
  | cons c rest inductionHypothesis =>
      rw [List.mem_cons, not_or] at oneLine
      rw [newlineStretches_cons, if_neg (Ne.symm oneLine.1), inductionHypothesis oneLine.2]

theorem newlineStretches_append (oneLine : '\n' ∉ front) (rest : List Char) :
    newlineStretches (front ++ '\n' :: rest) = front :: newlineStretches rest := by
  induction front with
  | nil => rfl
  | cons c others inductionHypothesis =>
      rw [List.mem_cons, not_or] at oneLine
      rw [List.cons_append, newlineStretches_cons, if_neg (Ne.symm oneLine.1),
        inductionHypothesis oneLine.2]

theorem lines_of_notMem (oneLine : '\n' ∉ text) (nonempty : text ≠ []) : lines text = [text] := by
  rw [lines, newlineStretches_of_notMem oneLine, linesOfStretches,
    if_neg (by simpa using nonempty)]

/-- A newline ends the first line. -/
theorem lines_append_newline (oneLine : '\n' ∉ front) (rest : List Char) :
    lines (front ++ '\n' :: rest) = withoutReturn front :: lines rest := by
  rw [lines, newlineStretches_append oneLine, lines]
  have nonempty := newlineStretches_ne_nil rest
  cases stretches : newlineStretches rest with
  | nil => exact absurd stretches nonempty
  | cons stretch others => rfl

theorem getElem?_lines_zero (nonempty : text ≠ []) : (lines text)[0]? = some (firstLine text) := by
  obtain oneLine | ⟨front, rest, rfl, oneLine⟩ := notMem_or_exists_newline text
  · rw [firstLine, lines_of_notMem oneLine nonempty]
    rfl
  · rw [firstLine, lines_append_newline oneLine]
    rfl

theorem firstLine_of_notMem (oneLine : '\n' ∉ text) : firstLine text = text := by
  by_cases empty : text = []
  · rw [empty]
    rfl
  · rw [firstLine, lines_of_notMem oneLine empty]
    rfl

theorem firstLine_append_newline (oneLine : '\n' ∉ front) (rest : List Char) :
    firstLine (front ++ '\n' :: rest) = withoutReturn front := by
  rw [firstLine, lines_append_newline oneLine]
  rfl

theorem withoutReturn_append (front : List Char) {back : List Char} (nonempty : back ≠ []) :
    withoutReturn (front ++ back) = front ++ withoutReturn back := by
  unfold withoutReturn
  rw [List.getLast?_append_of_ne_nil _ nonempty, List.dropLast_append_of_ne_nil nonempty]
  split <;> rfl

theorem withoutReturn_of_getLast? (closed : '\r' ∉ text.getLast?) : withoutReturn text = text :=
  if_neg closed

/-- What stands before the first character of a line stands before all of the line. -/
theorem firstLine_append
    (oneLine : '\n' ∉ front)
    {c : Char}
    (begins : c ≠ '\n')
    (rest : List Char) :
    firstLine (front ++ c :: rest) = front ++ firstLine (c :: rest) := by
  obtain last | ⟨back, further, split, oneMore⟩ := notMem_or_exists_newline (c :: rest)
  · rw [firstLine_of_notMem last, firstLine_of_notMem]
    exact List.not_mem_append oneLine last
  · have nonempty : back ≠ [] := by
      rintro rfl
      exact begins (List.cons.inj split).1
    rw [split, ← List.append_assoc, firstLine_append_newline (List.not_mem_append oneLine oneMore),
      firstLine_append_newline oneMore, withoutReturn_append front nonempty]

/-- The first line of a text begins with that of what the text begins with, unless the end
of the line comes right after it. -/
theorem firstLine_prefix (closed : '\r' ∉ text.getLast?) (after : List Char) :
    firstLine text <+: firstLine (text ++ after) := by
  obtain oneLine | ⟨front, rest, rfl, oneLine⟩ := notMem_or_exists_newline text
  · rw [firstLine_of_notMem oneLine]
    obtain last | ⟨back, further, rfl, oneMore⟩ := notMem_or_exists_newline after
    · rw [firstLine_of_notMem (List.not_mem_append oneLine last)]
      exact List.prefix_append text after
    · rw [← List.append_assoc, firstLine_append_newline (List.not_mem_append oneLine oneMore)]
      by_cases empty : back = []
      · have same : withoutReturn (text ++ back) = text := by
          rw [empty, List.append_nil, withoutReturn_of_getLast? closed]
        exact ⟨[], (List.append_nil text).trans same.symm⟩
      · rw [withoutReturn_append text empty]
        exact List.prefix_append text _
  · have same : firstLine (front ++ '\n' :: rest ++ after) = firstLine (front ++ '\n' :: rest) := by
      rw [List.append_assoc, List.cons_append, firstLine_append_newline oneLine,
        firstLine_append_newline oneLine]
    exact ⟨[], (List.append_nil _).trans same.symm⟩

end Text

namespace Token

/-! ## Counted places -/

theorem lineAfter_append_newline {front : List Char} (oneLine : '\n' ∉ front) (rest : List Char) :
    lineAfter (front ++ '\n' :: rest) = lineAfter rest + 1 := by
  unfold lineAfter
  rw [List.count_append, List.count_eq_zero_of_not_mem oneLine, List.count_cons_self]
  omega

theorem columnAfter_of_notMem {text : List Char} (oneLine : '\n' ∉ text) :
    columnAfter text = text.length + 1 := by
  have passes : ∀ c ∈ text.reverse, (c != '\n') = true := by
    intro c member
    rw [bne_iff_ne]
    rintro rfl
    exact oneLine (List.mem_reverse.mp member)
  have taken : (text.reverse ++ []).takeWhile (· != '\n') = text.reverse ++ [] :=
    List.takeWhile_append_of_pos passes
  rw [List.append_nil] at taken
  rw [columnAfter, taken, List.length_reverse, Nat.add_comm]

theorem columnAfter_append_newline (front rest : List Char) :
    columnAfter (front ++ '\n' :: rest) = columnAfter rest := by
  have reversed : (front ++ '\n' :: rest).reverse = rest.reverse ++ '\n' :: front.reverse := by simp
  rw [columnAfter, reversed, columnAfter, List.takeWhile_append]
  split <;> simp_all

/-- What comes after a text stands in the line that is counted, from the column on that is
counted. -/
theorem exists_line_after
    (before : List Char)
    {c : Char}
    (begins : c ≠ '\n')
    (rest : List Char) :
    ∃ front, front.length + 1 = columnAfter before ∧
      (Text.lines (before ++ c :: rest))[lineAfter before - 1]? =
        some (front ++ Text.firstLine (c :: rest)) := by
  induction lengthBound : before.length using Nat.strongRecOn generalizing before with
  | ind length inductionHypothesis =>
      obtain oneLine | ⟨front, back, rfl, oneLine⟩ := Text.notMem_or_exists_newline before
      · refine ⟨before, (columnAfter_of_notMem oneLine).symm, ?_⟩
        rw [lineAfter, List.count_eq_zero_of_not_mem oneLine,
          ← Text.firstLine_append oneLine begins]
        exact Text.getElem?_lines_zero (by simp)
      · have shorter : back.length < length := by
          rw [← lengthBound, List.length_append, List.length_cons]
          omega
        obtain ⟨stretch, column, found⟩ := inductionHypothesis _ shorter back rfl
        refine ⟨stretch, column.trans (columnAfter_append_newline front back).symm, ?_⟩
        have later : lineAfter (front ++ '\n' :: back) - 1 = lineAfter back - 1 + 1 := by
          rw [lineAfter_append_newline oneLine]
          unfold lineAfter
          omega
        rw [List.append_assoc, List.cons_append, Text.lines_append_newline oneLine, later,
          List.getElem?_cons_succ, found]

/-! ## Tokens -/

open Piece (symbolOf? comparisonOf?)

/-- No token begins or ends with a blank character. -/
theorem Spelled.notMem_blanks
    {kind : Kind}
    {literal : Option Literal}
    {spelling : List Char}
    (spelled : Spelled kind literal spelling) :
    ∃ c others, spelling = c :: others ∧ c ∉ blanks ∧
      ∀ last ∈ spelling.getLast?, last ∉ blanks := by
  have symbols : ∀ c ∈ blanks, symbolOf? c = none ∧ comparisonOf? c = none := by
    simp only [blanks, List.forall_mem_cons]
    exact ⟨⟨rfl, rfl⟩, ⟨rfl, rfl⟩, ⟨rfl, rfl⟩, ⟨rfl, rfl⟩, List.forall_mem_nil _⟩
  have digits {c : Char} (isDigit : c.isDigit = true) : c ∉ blanks :=
    fun blank => by simp [isDigit_of_mem_blanks c blank] at isDigit
  have parts {c : Char} (isPart : isNamePart c = true) : c ∉ blanks :=
    fun blank => by simp [isNamePart_of_mem_blanks c blank] at isPart
  cases spelled with
  | @symbol c _ isSymbol =>
      have apart : c ∉ blanks := fun blank => by simp [(symbols c blank).1] at isSymbol
      exact ⟨c, [], rfl, apart, by simpa using apart⟩
  | @single c kinds compared =>
      have apart : c ∉ blanks := fun blank => by simp [(symbols c blank).2] at compared
      exact ⟨c, [], rfl, apart, by simpa using apart⟩
  | @double c kinds compared =>
      have apart : c ∉ blanks := fun blank => by simp [(symbols c blank).2] at compared
      exact ⟨c, ['='], rfl, apart, by simp [blanks]⟩
  | slash => exact ⟨'/', [], rfl, by decide, by simp [blanks]⟩
  | @text body _ =>
      refine ⟨'"', body ++ ['"'], rfl, by decide, fun last isLast => ?_⟩
      rw [List.getLast?_append_of_ne_nil _ (List.cons_ne_nil _ _)] at isLast
      obtain rfl := List.mem_singleton.mp (List.mem_of_getLast? isLast)
      decide
  | @whole c others isDigit =>
      exact ⟨c, others, rfl, digits (isDigit c List.mem_cons_self),
        fun last isLast => digits (isDigit last (List.mem_of_getLast? isLast))⟩
  | @fraction c d others decimals isDigit isDecimal =>
      refine ⟨c, others ++ '.' :: d :: decimals, rfl, digits (isDigit c List.mem_cons_self),
        fun last isLast => digits (isDecimal last (List.mem_of_getLast? ?_))⟩
      rwa [List.getLast?_append_of_ne_nil _ (List.cons_ne_nil _ _), List.getLast?_cons_cons]
        at isLast
  | @name c others starts isPart =>
      have first : isNamePart c = true := Piece.isNamePart_of_isNameStart starts
      have allParts : ∀ d ∈ c :: others, isNamePart d = true :=
        List.forall_mem_cons.mpr ⟨first, isPart⟩
      exact ⟨c, others, rfl, parts first,
        fun last isLast => parts (allParts last (List.mem_of_getLast? isLast))⟩

/-- The line of the text on which the token starts. From the column on in which it does, it
holds the first line of the token's own text. -/
structure StartsOn (token : Token) (text line : String) : Prop where
  isLine : Text.line? text token.span.line = some line
  holds : ∃ front back,
    line = String.ofList (front ++ Text.firstLine token.lexeme.toList ++ back) ∧
      front.length + 1 = token.span.column
  nonempty : Text.firstLine token.lexeme.toList ≠ []

/-- Every token starts on a line of its text. -/
theorem exists_startsOn
    {text : String}
    {token : Token}
    (member : token ∈ (tokensOf text).body) :
    ∃ line, token.StartsOn text line := by
  obtain ⟨before, spelling, after, whole, -, -, lexeme, span⟩ :=
    (Scan.ofText_accounts text.toList).exists_token member
  have spelled := Scan.spelled_of_mem_tokens member
  have isLexeme : token.lexeme.toList = spelling := by rw [lexeme, String.toList_ofList]
  rw [isLexeme] at spelled
  obtain ⟨c, others, rfl, begins, closed⟩ := spelled.notMem_blanks
  have noNewline : c ≠ '\n' := by
    rintro rfl
    exact begins (by decide)
  have noReturn : c ≠ '\r' := by
    rintro rfl
    exact begins (by decide)
  obtain ⟨front, column, found⟩ := exists_line_after before noNewline (others ++ after)
  -- What comes after the token may stand in the same line.
  obtain ⟨back, more⟩ := Text.firstLine_prefix (fun last => closed _ last (by decide)) after
  rw [← List.cons_append, ← more, ← List.append_assoc before, ← whole, ← List.append_assoc]
    at found
  refine ⟨_, ?isLine, ⟨front, back, rfl, ?column⟩, ?nonempty⟩
  case isLine =>
    have counted : lineAfter before ≠ 0 := by
      unfold lineAfter
      omega
    rw [span, isLexeme]
    exact (if_neg counted).trans (congrArg (Option.map String.ofList) found)
  case column =>
    rw [span]
    exact column
  case nonempty =>
    obtain ⟨rest, first⟩ := @Text.firstLine_prefix [c] (by simpa using noReturn) others
    rw [Text.firstLine_of_notMem (by simpa using Ne.symm noNewline)] at first
    rw [isLexeme]
    exact fun empty => List.cons_ne_nil _ _ (first.trans empty)

end Token

/-! ## Faults -/

namespace Fault

variable {fault : Fault}

/-- The line that is added is the one with the number of the fault's line. -/
theorem sourceLine_withSource (unshown : fault.sourceLine = none) (source : String) :
    (fault.withSource source).sourceLine =
      fault.span.bind fun span => Text.line? source span.line := by
  unfold withSource Text.line?
  cases fault.span with
  | none => exact unshown
  | some span =>
      dsimp only [Option.bind_some]
      split
      · exact unshown
      · cases (Text.lines source.toList)[span.line - 1]? with
        | none => exact unshown
        | some line => rfl

/-- A line that is shown is rendered last, with a mark below the column. -/
theorem text_of_sourceLine
    {span : Token.Span}
    {line : String}
    (placed : fault.span = some span)
    (shown : fault.sourceLine = some line) :
    fault.text = { fault with sourceLine := none }.text ++ excerpt line span.column := by
  unfold text
  rw [placed, shown]
  simp [label, blame, stage]

end Fault
end Scripting
