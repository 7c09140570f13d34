import Scripting.Token.Scan
import Mathlib.Data.String.Basic

/-!
# Sources that are put together

No token goes on in the next line, except a quoted text, which ends with a quote of
its own.  So a source whose quoted texts are closed keeps its tokens and its faults when
it is put in front of another one, in lines of its own, and those of the other one only
stand further behind.

Main statement: `Scan.ofSource_joined`.
-/

namespace Scripting
namespace Token

/-! ## Places behind a text -/

/-- How many bytes a text has. -/
def bytes : List Char → Nat
  | [] => 0
  | c :: rest => c.utf8Size + bytes rest

/-- The place with a text of whole lines in front of its source. -/
def Position.behind (front : List Char) (position : Position) : Position where
  offset := position.offset + bytes front
  line := position.line + front.count '\n'
  column := position.column

/-- The span with a text of whole lines in front of its source. -/
def Span.behind (front : List Char) (span : Span) : Span where
  start := span.start + bytes front
  stop := span.stop + bytes front
  line := span.line + front.count '\n'
  column := span.column

/-- The token with a text of whole lines in front of its source. -/
def behind (front : List Char) (token : Token) : Token :=
  { token with span := token.span.behind front }

end Token

/-- The fault with a text of whole lines in front of its source. -/
def Fault.behind (front : List Char) (fault : Fault) : Fault :=
  { fault with span := fault.span.map (Token.Span.behind front) }

namespace Token

theorem bytes_append (text rest : List Char) : bytes (text ++ rest) = bytes text + bytes rest := by
  induction text with
  | nil => simp [bytes]
  | cons c others inductionHypothesis =>
      rw [List.cons_append, bytes, bytes, inductionHypothesis, Nat.add_assoc]

theorem bytes_eq_utf8Len (text : List Char) : bytes text = String.utf8Len text := by
  induction text with
  | nil => rfl
  | cons c others inductionHypothesis =>
      rw [bytes, String.utf8Len, inductionHypothesis, Nat.add_comm]

/-- Behind a text and the end of its last line, places are as many bytes further behind
as the text and that end have, and as many lines. -/
theorem Span.behind_lines (front : String) (span : Span) :
    span.behind (front.toList ++ ['\n']) =
      { start := span.start + (front.utf8ByteSize + 1)
        stop := span.stop + (front.utf8ByteSize + 1)
        line := span.line + (front.toList.count '\n' + 1)
        column := span.column } := by
  have size : bytes (front.toList ++ ['\n']) = front.utf8ByteSize + 1 := by
    rw [bytes_append, bytes_eq_utf8Len, String.utf8Len_toList]
    rfl
  have lines : (front.toList ++ ['\n']).count '\n' = front.toList.count '\n' + 1 := by simp
  unfold behind
  rw [size, lines]

namespace Position

theorem spanTo_behind (front : List Char) (position stop : Position) :
    (position.behind front).spanTo (stop.behind front) =
      (position.spanTo stop).behind front :=
  rfl

theorem after_behind (front : List Char) (position : Position) (c : Char) :
    (position.behind front).after c = (position.after c).behind front := by
  unfold after behind
  split <;> simp only [Position.mk.injEq, and_true] <;> omega

theorem afterAll_behind (front text : List Char) (position : Position) :
    (position.behind front).afterAll text = (position.afterAll text).behind front := by
  induction text generalizing position with
  | nil => rfl
  | cons c rest inductionHypothesis =>
      rw [afterAll_cons, afterAll_cons, after_behind, inductionHypothesis]

theorem afterAll_offset (text : List Char) (position : Position) :
    (position.afterAll text).offset = position.offset + bytes text := by
  induction text generalizing position with
  | nil => rfl
  | cons c rest inductionHypothesis =>
      have step : (position.after c).offset = position.offset + c.utf8Size := by
        unfold after
        split <;> rfl
      rw [afterAll_cons, inductionHypothesis, step]
      simp only [bytes]
      omega

theorem afterAll_line (text : List Char) (position : Position) :
    (position.afterAll text).line = position.line + text.count '\n' := by
  induction text generalizing position with
  | nil => rfl
  | cons c rest inductionHypothesis =>
      rw [afterAll_cons, inductionHypothesis, List.count_cons]
      unfold after
      by_cases newline : c = '\n'
      · simp [newline]
        omega
      · simp [newline]

/-- After whole lines a source begins again. -/
theorem first_afterAll (front : List Char) :
    first.afterAll (front ++ ['\n']) = first.behind (front ++ ['\n']) := by
  have offset := afterAll_offset (front ++ ['\n']) first
  have line := afterAll_line (front ++ ['\n']) first
  have column : (first.afterAll (front ++ ['\n'])).column = 1 := by
    rw [afterAll_append]
    rfl
  unfold behind
  rw [← offset, ← line]
  exact congrArg (Position.mk _ _) column

end Position

/-! ## The pieces before and after the end of a line -/

theorem takeWhile_append_cons
    {p : Char → Bool}
    {c : Char}
    (stops : p c = false)
    (text rest : List Char) :
    (text ++ c :: rest).takeWhile p = text.takeWhile p := by
  induction text with
  | nil => simp [stops]
  | cons first others inductionHypothesis =>
      rw [List.cons_append, List.takeWhile_cons, List.takeWhile_cons, inductionHypothesis]

theorem dropWhile_append_cons
    {p : Char → Bool}
    {c : Char}
    (stops : p c = false)
    (text rest : List Char) :
    (text ++ c :: rest).dropWhile p = text.dropWhile p ++ c :: rest := by
  induction text with
  | nil => simp [stops]
  | cons first others inductionHypothesis =>
      rw [List.cons_append, List.dropWhile_cons, List.dropWhile_cons, inductionHypothesis]
      split <;> rfl

/-- What stops in a text stops at the same place when more follows. -/
theorem span_append_of_dropWhile
    {p : Char → Bool}
    {c : Char}
    {others : List Char} :
    ∀ {text : List Char}, text.dropWhile p = c :: others → ∀ rest : List Char,
      (text ++ rest).takeWhile p = text.takeWhile p ∧
        (text ++ rest).dropWhile p = c :: (others ++ rest)
  | first :: text, stops, rest => by
      rw [List.dropWhile_cons] at stops
      rw [List.cons_append, List.takeWhile_cons, List.takeWhile_cons, List.dropWhile_cons]
      split at stops
      next holds =>
          obtain ⟨taken, left⟩ := span_append_of_dropWhile stops rest
          simp [holds, taken, left]
      next fails =>
          obtain ⟨rfl, rfl⟩ := List.cons.inj stops
          simp [fails]

namespace Piece

/-- Whether a piece is no fault. -/
def isSound : Piece → Bool
  | stray _ => false
  | unclosed _ => false
  | _ => true

/-- Whether a piece is no quoted text without a second quote. -/
def isClosed : Piece → Bool
  | unclosed _ => false
  | _ => true

theorem isClosed_of_isSound {piece : Piece} (sound : piece.isSound = true) :
    piece.isClosed = true := by
  cases piece <;> trivial

theorem comparison_of_head?_ne
    {rest : List Char}
    (other : rest.head? ≠ some '=')
    (kinds : Kind × Kind)
    (c : Char) :
    comparison kinds c rest = (.lexeme kinds.1 none [c], rest) := by
  unfold comparison
  split
  · exact absurd rfl other
  · rfl

theorem commentOrSlash_of_head?_ne
    {rest : List Char}
    (other : rest.head? ≠ some '/') :
    commentOrSlash rest = (.lexeme .slash none ['/'], rest) := by
  unfold commentOrSlash
  split
  · exact absurd rfl other
  · rfl

theorem comparison_newline
    (kinds : Kind × Kind)
    (c : Char)
    (text rest : List Char) :
    comparison kinds c (text ++ '\n' :: rest) =
      ((comparison kinds c text).1, (comparison kinds c text).2 ++ '\n' :: rest) := by
  unfold comparison
  cases text with
  | nil => rfl
  | cons first others =>
      rw [List.cons_append]
      split <;> simp_all

theorem commentOrSlash_newline (text rest : List Char) :
    commentOrSlash (text ++ '\n' :: rest) =
      ((commentOrSlash text).1, (commentOrSlash text).2 ++ '\n' :: rest) := by
  unfold commentOrSlash
  cases text with
  | nil => rfl
  | cons first others =>
      rw [List.cons_append]
      split
      next equation =>
          obtain ⟨rfl, rfl⟩ := List.cons.inj equation
          simp only
          rw [takeWhile_append_cons (by decide), dropWhile_append_cons (by decide)]
      next => simp_all

/-- A quoted text with its second quote does not depend on what follows. -/
theorem quotedText_append_of_isClosed
    {text : List Char}
    (closed : (quotedText text).1.isClosed = true)
    (rest : List Char) :
    quotedText (text ++ rest) = ((quotedText text).1, (quotedText text).2 ++ rest) := by
  unfold quotedText at closed ⊢
  cases closing : text.dropWhile (· != '"') with
  | nil => simp [closing, isClosed] at closed
  | cons quote others =>
      obtain ⟨taken, left⟩ := span_append_of_dropWhile closing rest
      simp only [taken, left]

theorem fraction?_newline (text rest : List Char) :
    fraction? (text ++ '\n' :: rest) =
      (fraction? text).map fun found => (found.1, found.2 ++ '\n' :: rest) := by
  unfold fraction?
  cases text with
  | nil => rfl
  | cons first others =>
      rw [List.cons_append]
      split
      next equation =>
          obtain ⟨rfl, rfl⟩ := List.cons.inj equation
          simp only
          rw [takeWhile_append_cons (by decide), dropWhile_append_cons (by decide)]
          split <;> rfl
      next => simp_all

theorem numeral_newline (text rest : List Char) :
    numeral (text ++ '\n' :: rest) = ((numeral text).1, (numeral text).2 ++ '\n' :: rest) := by
  unfold numeral
  simp only
  rw [takeWhile_append_cons (by decide), dropWhile_append_cons (by decide), fraction?_newline]
  cases fraction? (text.dropWhile Char.isDigit) <;> rfl

theorem name_newline (text rest : List Char) :
    name (text ++ '\n' :: rest) = ((name text).1, (name text).2 ++ '\n' :: rest) := by
  unfold name
  simp only
  rw [takeWhile_append_cons (by decide), dropWhile_append_cons (by decide)]

theorem wordOrGap_newline
    {c : Char}
    {text : List Char}
    (closed : (wordOrGap c text).1.isClosed = true)
    (rest : List Char) :
    wordOrGap c (text ++ '\n' :: rest) =
      ((wordOrGap c text).1, (wordOrGap c text).2 ++ '\n' :: rest) := by
  unfold wordOrGap at closed ⊢
  by_cases slash : c = '/'
  · simpa only [slash, if_true] using commentOrSlash_newline text rest
  by_cases quote : c = '"'
  · subst quote
    exact quotedText_append_of_isClosed closed _
  simp only [slash, quote, if_false]
  cases isSeparator c with
  | true => rfl
  | false =>
      cases c.isDigit with
      | true => exact numeral_newline (c :: text) rest
      | false =>
          cases isNameStart c with
          | true => exact name_newline (c :: text) rest
          | false => rfl

/-- Any piece but a quoted text without a second quote ends before the end of the line
that follows it. -/
theorem next_newline
    {c : Char}
    {text : List Char}
    (closed : (next c text).1.isClosed = true)
    (rest : List Char) :
    next c (text ++ '\n' :: rest) = ((next c text).1, (next c text).2 ++ '\n' :: rest) := by
  unfold next at closed ⊢
  cases symbol : symbolOf? c with
  | some kind => simp
  | none =>
      cases compared : comparisonOf? c with
      | some kinds => exact comparison_newline kinds c text rest
      | none =>
          simp only [symbol, compared] at closed
          exact wordOrGap_newline closed rest

/-- A text in which every quote is closed has the same pieces when lines follow it. -/
theorem ofText_newline
    (text rest : List Char)
    (closed : ∀ piece ∈ ofText text, piece.isClosed = true) :
    ofText (text ++ '\n' :: rest) = ofText text ++ separator '\n' :: ofText rest := by
  induction lengthBound : text.length using Nat.strongRecOn generalizing text with
  | ind length inductionHypothesis =>
      cases text with
      | nil =>
          rw [List.nil_append, ofText_cons, ofText_nil]
          rfl
      | cons c others =>
          rw [ofText_cons, List.forall_mem_cons] at closed
          have shorter : (next c others).2.length < length := by
            rw [← lengthBound]
            exact next_length_lt c others
          rw [List.cons_append, ofText_cons, next_newline closed.1, ofText_cons,
            inductionHypothesis _ shorter _ closed.2 rfl]
          rfl

end Piece

/-! ## What is read of two texts -/

namespace Scan

/-- What has been read with a text of whole lines in front of the source. -/
def behind (front : List Char) (scan : Scan) : Scan where
  position := scan.position.behind front
  tokens := scan.tokens.map (Token.behind front)
  faults := scan.faults.map (Fault.behind front)

/-- What has been read of a source, when `earlier` was read before. -/
def following (earlier scan : Scan) : Scan where
  position := scan.position
  tokens := earlier.tokens ++ scan.tokens
  faults := earlier.faults ++ scan.faults

/-- A piece further behind adds what it adds, further behind. -/
theorem add_behind (front : List Char) (scan : Scan) (piece : Piece) :
    (scan.behind front).add piece = (scan.add piece).behind front := by
  cases piece <;>
    simp [add, behind, Position.afterAll_behind, Position.spanTo_behind, Token.behind,
      Fault.behind, Fault.ofCause]

theorem foldl_add_behind (front : List Char) (pieces : List Piece) (scan : Scan) :
    pieces.foldl add (scan.behind front) = (pieces.foldl add scan).behind front := by
  induction pieces generalizing scan with
  | nil => rfl
  | cons piece others inductionHypothesis =>
      rw [List.foldl_cons, add_behind, inductionHypothesis, List.foldl_cons]

/-- A piece is added at the end, whatever was read before. -/
theorem add_following (earlier scan : Scan) (piece : Piece) :
    (earlier.following scan).add piece = earlier.following (scan.add piece) := by
  cases piece <;> simp [add, following]

theorem foldl_add_following (earlier : Scan) (pieces : List Piece) (scan : Scan) :
    pieces.foldl add (earlier.following scan) = earlier.following (pieces.foldl add scan) := by
  induction pieces generalizing scan with
  | nil => rfl
  | cons piece others inductionHypothesis =>
      rw [List.foldl_cons, add_following, inductionHypothesis, List.foldl_cons]

/-- Each piece that is no sound one is a fault. -/
theorem faults_size_foldl_add (pieces : List Piece) (scan : Scan) :
    (pieces.foldl add scan).faults.size =
      scan.faults.size + pieces.countP fun piece => !piece.isSound := by
  induction pieces generalizing scan with
  | nil => rfl
  | cons piece others inductionHypothesis =>
      rw [List.foldl_cons, inductionHypothesis, List.countP_cons]
      cases piece <;> simp [add, Piece.isSound] <;> omega

/-- A text is read without faults when its pieces are sound. -/
theorem ofText_faults (text : List Char) :
    (ofText text).faults = #[] ↔ ∀ piece ∈ Piece.ofText text, piece.isSound = true := by
  rw [← Array.size_eq_zero_iff]
  unfold ofText
  rw [faults_size_foldl_add]
  simp [start]

/-- What is a fault already remains one. -/
theorem mem_faults_foldl_add
    (pieces : List Piece)
    {scan : Scan} :
    ∀ fault ∈ scan.faults, fault ∈ (pieces.foldl add scan).faults := by
  induction pieces generalizing scan with
  | nil => exact fun _ member => member
  | cons piece others inductionHypothesis =>
      intro fault member
      refine inductionHypothesis fault ?_
      cases piece <;> simp [add, member]

/-- A quoted text without a second quote is a fault of its own kind. -/
theorem isClosed_of_foldl_add
    {pieces : List Piece}
    {scan : Scan}
    (closed : ∀ fault ∈ (pieces.foldl add scan).faults, fault.cause ≠ .unterminatedText) :
    ∀ piece ∈ pieces, piece.isClosed = true := by
  induction pieces generalizing scan with
  | nil => simp
  | cons piece others inductionHypothesis =>
      rw [List.foldl_cons] at closed
      refine List.forall_mem_cons.mpr ⟨?_, inductionHypothesis closed⟩
      cases piece with
      | unclosed body =>
          exact absurd rfl (closed _ (mem_faults_foldl_add others _ Array.mem_push_self))
      | _ => rfl

/-- When every quote of a text is closed, the text and another one after the end of its
last line are read as the one, and then the other behind it. -/
theorem ofText_newline
    {front : List Char}
    (closed : ∀ piece ∈ Piece.ofText front, piece.isClosed = true)
    (text : List Char) :
    ofText (front ++ '\n' :: text) =
      (ofText front).following ((ofText text).behind (front ++ ['\n'])) := by
  have place : (ofText front).position.afterAll ['\n'] =
      Position.first.behind (front ++ ['\n']) := by
    rw [ofText_position, ← Position.afterAll_append, Position.first_afterAll]
  have between : (ofText front).add (.separator '\n') =
      (ofText front).following (start.behind (front ++ ['\n'])) := by
    simp only [add, Piece.chars, place, following, behind, start, Array.map_empty,
      Array.append_empty]
  have pieces := Piece.ofText_newline front text closed
  calc ofText (front ++ '\n' :: text)
      = (Piece.ofText text).foldl add ((ofText front).add (.separator '\n')) := by
        rw [ofText, pieces, List.foldl_append]
        rfl
    _ = (ofText front).following ((Piece.ofText text).foldl add
          (start.behind (front ++ ['\n']))) := by
        rw [between, foldl_add_following]
    _ = _ := by
        rw [foldl_add_behind]
        rfl

/-- A text without faults and another one after the end of its last line have the tokens
of the one, and the tokens of the other behind it. -/
theorem ofText_join
    {front text : List Char}
    (frontClean : (ofText front).faults = #[])
    (clean : (ofText text).faults = #[]) :
    (ofText (front ++ '\n' :: text)).faults = #[] ∧
      (ofText (front ++ '\n' :: text)).tokens.toList =
        (ofText front).tokens.toList ++
          (ofText text).tokens.toList.map (Token.behind (front ++ ['\n'])) := by
  have sound := (ofText_faults front).mp frontClean
  rw [ofText_newline fun piece member => Piece.isClosed_of_isSound (sound piece member)]
  simp [following, behind, frontClean, clean]

/-- A source in which every quote is closed keeps its tokens, without their end, and its
faults when another source begins on the line after it. Those of the other source follow,
further behind by the bytes of the first source and the end of its last line, and by its
lines, in the same columns. -/
theorem ofSource_joined
    {front : String}
    (closed : ∀ fault ∈ (ofSource front).faults, fault.cause ≠ .unterminatedText)
    (source : String) :
    let lines := front.toList ++ ['\n']
    (∀ span : Span, span.behind lines =
        { start := span.start + (front.utf8ByteSize + 1)
          stop := span.stop + (front.utf8ByteSize + 1)
          line := span.line + (front.toList.count '\n' + 1)
          column := span.column }) ∧
      (ofSource (front ++ "\n" ++ source)).sequence.toList =
        (ofSource front).sequence.body ++
          (ofSource source).sequence.toList.map (Token.behind lines) ∧
      (ofSource (front ++ "\n" ++ source)).faults.toList =
        (ofSource front).faults.toList ++
          (ofSource source).faults.toList.map (Fault.behind lines) := by
  intro lines
  have chars : (front ++ "\n" ++ source).toList = front.toList ++ '\n' :: source.toList := by
    simp
  have scanned : ofSource (front ++ "\n" ++ source) =
      (ofSource front).following ((ofSource source).behind lines) := by
    rw [ofSource, chars]
    exact ofText_newline (isClosed_of_foldl_add closed) source.toList
  refine ⟨Span.behind_lines front, ?tokens, ?faults⟩
  case tokens =>
    rw [scanned]
    simp [sequence, Sequence.toList, following, behind, ending, Token.behind,
      Position.spanTo_behind]
  case faults =>
    rw [scanned]
    simp [following, behind]

/-- A character with which nothing begins, and a comment up to the end of the source. -/
theorem ofSource_joined_of_stray :
    let front := "é \"a\nb\" // c"
    (∀ fault ∈ (ofSource front).faults, fault.cause ≠ .unterminatedText) ∧
      (ofSource (front ++ "\n" ++ "x # \"y")).faults.toList =
        (ofSource front).faults.toList ++
          (ofSource "x # \"y").faults.toList.map (Fault.behind (front.toList ++ ['\n'])) := by
  have closed : ∀ fault ∈ (ofSource "é \"a\nb\" // c").faults,
      fault.cause ≠ .unterminatedText := by
    decide +kernel
  exact ⟨closed, (ofSource_joined closed "x # \"y").2.2⟩

end Scan
end Token
end Scripting
